import TickRelay.Storage.Redis
import TickRelay.Proofs.BulkWriting
import TickRelay.Proofs.OutgoingFrames
import TickRelay.Proofs.Utf8Validity

/-!
# The mirror of the latest ticks

**Input.** Batches of ticks, committed one after the other to a server that was
empty.

**Algorithm.** `lastWritten` says which tick a symbol is left with, from the
batches alone: the last one of that symbol, in the last batch that could be
written and had one. A key is the start of all keys and the symbol, so symbols
never share a key. `get?_run` carries the rule over the commands of a batch,
and `mirrors_afterwards` over all batches.

**Results.** `mirrors_last`: a batch is sent whole or not at all, and reading a
symbol gives back the tick that it is left with.
-/

namespace TickRelay

namespace Tick

/-- The written form of a tick with finite numbers. -/
def payload (t : Tick) : Bytes :=
  Json.writeObject (Json.writtenPairs t.content)

theorem finite_of_optionalMember? {name : String} {o : Option Binary64}
    {written : List (Bytes × Bytes)}
    (h : optionalMember? name o = some written) :
    o.all Binary64.isFinite = true := by
  cases o with
  | none => rfl
  | some x =>
      obtain ⟨s, hs, -⟩ := Option.map_eq_some_iff.mp h
      exact (Option.ite_none_right_eq_some.mp hs).1

/-- Only numbers keep a tick from being written. -/
theorem encode?_eq_none {t : Tick} : t.encode? = none ↔ ¬ t.Finite := by
  refine ⟨fun hnone hfinite => ?_, fun hnot => ?_⟩
  · rw [encode?_eq hfinite] at hnone
    cases hnone
  · by_contra hsome
    obtain ⟨payload, hpayload⟩ := Option.ne_none_iff_exists'.mp hsome
    obtain ⟨written, hwritten, -⟩ := Option.map_eq_some_iff.mp hpayload
    simp only [writtenMembers?, Option.bind_eq_bind, Option.bind_eq_some_iff]
      at hwritten
    obtain ⟨price, hprice, volume, hvolume, o, hopen, h, hhigh, l, hlow, c,
      hclose, -⟩ := hwritten
    exact hnot ⟨(Option.ite_none_right_eq_some.mp hprice).1,
      (Option.ite_none_right_eq_some.mp hvolume).1,
      finite_of_optionalMember? hopen, finite_of_optionalMember? hhigh,
      finite_of_optionalMember? hlow, finite_of_optionalMember? hclose⟩

end Tick

namespace Storage
namespace Redis

variable {n : Naming} {ticks : List Tick} {s : Bytes}

theorem Naming.key_inj {s s' : Bytes} : n.key s = n.key s' ↔ s = s' :=
  List.append_right_inj _

/-- The two commands of a tick with finite numbers. -/
def mirrored (n : Naming) (t : Tick) : List Command :=
  [.set (n.key t.symbol) t.payload n.lifetime,
    .publish (n.channel t.symbol) t.payload]

theorem commands?_eq_none :
    commands? n ticks = none ↔ ∃ t ∈ ticks, ¬ t.Finite := by
  rw [commands?, Option.map_eq_none_iff, mapM_eq_none]
  simp only [tickCommands?, Option.map_eq_none_iff, Tick.encode?_eq_none]

theorem commands?_eq (hticks : ∀ t ∈ ticks, t.Finite) :
    commands? n ticks = some (ticks.flatMap (mirrored n)) := by
  have hall :
      ticks.mapM (tickCommands? n) = some (ticks.map (mirrored n)) := by
    refine mapM_eq_map fun t ht => ?_
    rw [tickCommands?, Tick.encode?_eq (hticks t ht)]
    rfl
  rw [commands?, hall, Option.map_some, List.flatMap_def]

namespace Client

variable {c : Client}

theorem commit_of_unwritable (h : ∃ t ∈ ticks, ¬ t.Finite) :
    c.commit ticks = (c, [], .error .unwritable) := by
  unfold commit
  rw [commands?_eq_none.mpr h]

theorem commit_of_finite (hopen : c.isOpen = true)
    (hticks : ∀ t ∈ ticks, t.Finite) :
    c.commit ticks =
      ({ c with keys := c.keys.run (ticks.flatMap (mirrored c.naming)) },
        ticks.flatMap (mirrored c.naming), .ok ()) := by
  unfold commit
  rw [commands?_eq hticks]
  cases ticks with
  | nil => rfl
  | cons t ticks =>
      simp only [List.isEmpty_cons, Bool.false_eq_true,
        if_false, hopen, if_true]

end Client

/-- The last tick of a symbol in a batch. -/
def lastIn (s : Bytes) (ticks : List Tick) : Option Tick :=
  ticks.reverse.find? (·.symbol = s)

theorem lastIn_cons (t : Tick) :
    lastIn s (t :: ticks) =
      (lastIn s ticks).or (if t.symbol = s then some t else none) := by
  rw [lastIn, List.reverse_cons, List.find?_append, lastIn]
  congr 1
  by_cases h : t.symbol = s <;> simp [h]

/-- What a server keeps of a tick. -/
def entry (n : Naming) (t : Tick) : Entry := ⟨t.payload, n.lifetime⟩

theorem Keyspace.get?_run (k : Keyspace) (s : Bytes) :
    (Keyspace.run k (ticks.flatMap (mirrored n))).get? (n.key s) =
      ((lastIn s ticks).map (entry n)).or (k.get? (n.key s)) := by
  induction ticks generalizing k with
  | nil => rfl
  | cons t ticks ih =>
      have hrun : Keyspace.run k ((t :: ticks).flatMap (mirrored n)) =
          Keyspace.run (k.set (n.key t.symbol) (entry n t))
            (ticks.flatMap (mirrored n)) := rfl
      rw [hrun, ih, lastIn_cons, Table.get?_set]
      by_cases h : t.symbol = s
      · rw [if_pos (congrArg n.key h.symm), if_pos h]
        cases lastIn s ticks <;> rfl
      · rw [if_neg fun heq => h (Naming.key_inj.mp heq).symm,
          if_neg h, Option.or_none]

/-- The last tick of a symbol in the last batch that could be written and had
one. -/
def lastWritten (s : Bytes) (batches : List (List Tick)) : Option Tick :=
  batches.reverse.findSome? fun ticks =>
    if ticks.all (·.encode?.isSome) then lastIn s ticks else none

theorem all_encode? :
    ticks.all (·.encode?.isSome) = true ↔ ∀ t ∈ ticks, t.Finite := by
  rw [List.all_eq_true]
  refine forall₂_congr fun t _ => ?_
  rw [← not_iff_not, Option.not_isSome_iff_eq_none, Tick.encode?_eq_none]

theorem lastWritten_concat (batches : List (List Tick)) :
    lastWritten s (batches ++ [ticks]) =
      (if ticks.all (·.encode?.isSome) then lastIn s ticks else none).or
        (lastWritten s batches) := by
  rw [lastWritten, List.reverse_append, List.reverse_singleton,
    List.singleton_append, List.findSome?_cons]
  cases hlast :
      if ticks.all (·.encode?.isSome) then lastIn s ticks else none with
  | none => rfl
  | some t => rfl

theorem finite_of_lastWritten {batches : List (List Tick)} {t : Tick}
    (h : lastWritten s batches = some t) : t.Finite ∧ t.symbol = s := by
  obtain ⟨ticks, -, hticks⟩ := List.exists_of_findSome?_eq_some h
  obtain ⟨hall, hlast⟩ := Option.ite_none_right_eq_some.mp hticks
  have hmem := List.mem_reverse.mp (List.mem_of_find?_eq_some hlast)
  have hsymbol := List.find?_some hlast
  exact ⟨all_encode?.mp hall t hmem, of_decide_eq_true hsymbol⟩

/-- The server holds, under the key of every symbol, the tick that the symbol
is left with. -/
structure Mirrors (n : Naming) (batches : List (List Tick)) (c : Client) :
    Prop where
  naming : c.naming = n
  isOpen : c.isOpen = true
  keys : ∀ s, c.keys.get? (n.key s) = (lastWritten s batches).map (entry n)

theorem Mirrors.commit {batches : List (List Tick)} {c : Client}
    (h : Mirrors n batches c) (ticks : List Tick) :
    Mirrors n (batches ++ [ticks]) (c.commit ticks).1 := by
  by_cases hticks : ∀ t ∈ ticks, t.Finite
  · rw [Client.commit_of_finite h.isOpen hticks, h.naming]
    refine ⟨rfl, h.isOpen, fun s => ?_⟩
    rw [lastWritten_concat, if_pos (all_encode?.mpr hticks),
      Option.map_or, ← h.keys]
    exact Keyspace.get?_run c.keys s
  · have hsome : ∃ t ∈ ticks, ¬ t.Finite := by simpa using hticks
    -- Neither the server nor what a symbol is left with changes.
    rw [Client.commit_of_unwritable hsome]
    refine ⟨h.naming, h.isOpen, fun s => ?_⟩
    rw [lastWritten_concat, if_neg (mt all_encode?.mp hticks),
      Option.none_or, h.keys]

/-- A client of an empty server after some batches, whatever became of each. -/
def afterwards (n : Naming) (batches : List (List Tick)) : Client :=
  batches.foldl (fun c ticks => (c.commit ticks).1) { naming := n }

theorem mirrors_afterwards (n : Naming) (batches : List (List Tick)) :
    Mirrors n batches (afterwards n batches) := by
  induction batches using List.reverseRecOn with
  | nil => exact ⟨rfl, rfl, fun _ => rfl⟩
  | append_singleton batches ticks ih =>
      rw [afterwards, List.foldl_append]
      exact ih.commit ticks

theorem Mirrors.latest_eq_missing {batches : List (List Tick)} {c : Client}
    (h : Mirrors n batches c) (hnone : lastWritten s batches = none) :
    c.latest s = .error .missing := by
  rw [Client.latest, if_pos h.isOpen, h.naming, h.keys, hnone]
  rfl

theorem Mirrors.latest_resembles {batches : List (List Tick)} {c : Client}
    (h : Mirrors n batches c) {t : Tick}
    (hlast : lastWritten s batches = some t) :
    ∃ u, c.latest s = .ok u ∧ t.Resembles u := by
  obtain ⟨u, hresembles, hdecode⟩ :=
    Tick.decode?_written (finite_of_lastWritten hlast).1
  refine ⟨u, ?_, hresembles⟩
  rw [Client.latest, if_pos h.isOpen, h.naming, h.keys, hlast]
  simp only [Option.map_some, entry, Tick.payload, hdecode]

/-- After any batches, a batch with a tick that cannot be written sends
nothing, and any other sends the two commands of each tick in order. A symbol
is read as the tick that it is left with. -/
theorem mirrors_last (n : Naming) (batches : List (List Tick)) :
    (∀ t : Tick, t.encode? = none ↔ ¬ t.Finite) ∧
    (∀ ticks : List Tick, (∃ t ∈ ticks, t.encode? = none) →
      (afterwards n batches).commit ticks =
        (afterwards n batches, [], .error .unwritable)) ∧
    (∀ ticks : List Tick, (∀ t ∈ ticks, t.encode? ≠ none) →
      ∃ payload : Tick → Bytes, (∀ t ∈ ticks, t.encode? = some (payload t)) ∧
        ((afterwards n batches).commit ticks).2 =
          (ticks.flatMap fun t =>
            [.set (n.key t.symbol) (payload t) n.lifetime,
              .publish (n.channel t.symbol) (payload t)], .ok ())) ∧
    ∀ s, (lastWritten s batches = none →
        (afterwards n batches).latest s = .error .missing) ∧
      ∀ t, lastWritten s batches = some t →
        ∃ u, (afterwards n batches).latest s = .ok u ∧ t.Resembles u ∧
          (Utf8.isValid t.symbol = true → u.symbol = s) ∧
          (Utf8.isValid t.timestamp = true → u.timestamp = t.timestamp) := by
  have hmirrors := mirrors_afterwards n batches
  refine ⟨fun t => Tick.encode?_eq_none, fun ticks h => ?_,
      fun ticks h => ?_, fun s =>
    ⟨hmirrors.latest_eq_missing, fun t hlast => ?_⟩⟩
  · simp only [Tick.encode?_eq_none] at h
    exact Client.commit_of_unwritable h
  · have hfinite : ∀ t ∈ ticks, t.Finite := fun t ht => by
      simpa [Tick.encode?_eq_none] using h t ht
    refine ⟨Tick.payload, fun t ht => Tick.encode?_eq (hfinite t ht), ?_⟩
    rw [Client.commit_of_finite hmirrors.isOpen hfinite, hmirrors.naming]
    rfl
  · obtain ⟨u, hu, hresembles⟩ := hmirrors.latest_resembles hlast
    refine ⟨u, hu, hresembles, fun hvalid => ?_, fun hvalid => ?_⟩
    · rw [hresembles.symbol, Utf8.repair_of_isValid hvalid,
        (finite_of_lastWritten hlast).2]
    · rw [hresembles.timestamp, Utf8.repair_of_isValid hvalid]

/-- A trade of one for one. -/
def trade (symbol timestamp : String) : Tick where
  symbol := utf8 symbol
  price := .ofInt 1
  volume := .ofInt 1
  timestamp := utf8 timestamp

/-- A trade without a price. -/
def unpriced : Tick := { trade "BTC" "noon" with price := .nan }

/-- A symbol twice in a batch, and once more in a batch that is refused. -/
def tradedTwice : List (List Tick) :=
  [[trade "BTC" "dawn", trade "ETH" "dawn", trade "BTC" "morning"],
    [trade "BTC" "noon", unpriced]]

theorem mirrors_last_of_tradedTwice :
    (∃ t ∈ [trade "BTC" "noon", unpriced], t.encode? = none) ∧
    (afterwards {} tradedTwice).commit [trade "BTC" "noon", unpriced] =
      (afterwards {} tradedTwice, [], .error .unwritable) ∧
    (∃ payload : Tick → Bytes,
      (trade "BTC" "dawn").encode? = some (payload (trade "BTC" "dawn")) ∧
      ((afterwards {} tradedTwice).commit [trade "BTC" "dawn"]).2.1 =
        [.set (utf8 "BTC") (payload (trade "BTC" "dawn")) none,
          .publish (utf8 "BTC") (payload (trade "BTC" "dawn"))]) ∧
    (∃ u, (afterwards {} tradedTwice).latest (utf8 "BTC") = .ok u ∧
      u.symbol = utf8 "BTC" ∧ u.timestamp = utf8 "morning") ∧
    (afterwards {} tradedTwice).latest (utf8 "DOGE") = .error .missing := by
  have hunpriced : ∃ t ∈ [trade "BTC" "noon", unpriced], t.encode? = none :=
    ⟨unpriced, by simp, rfl⟩
  have hpriced : ∀ t ∈ [trade "BTC" "dawn"], t.encode? ≠ none :=
    List.forall_mem_singleton.mpr (by decide +kernel)
  have hlast :
      lastWritten (utf8 "BTC") tradedTwice = some (trade "BTC" "morning") := by
    decide +kernel
  have hnone : lastWritten (utf8 "DOGE") tradedTwice = none := by
    decide +kernel
  obtain ⟨-, hrefused, hsent, hlatest⟩ := mirrors_last {} tradedTwice
  obtain ⟨payload, hpayload, hcommands⟩ := hsent _ hpriced
  obtain ⟨u, hu, -, hsymbol, htimestamp⟩ := (hlatest _).2 _ hlast
  exact ⟨hunpriced, hrefused _ hunpriced,
    ⟨payload, hpayload _ (List.mem_singleton_self _),
      congrArg Prod.fst hcommands⟩,
    ⟨u, hu, hsymbol (by decide +kernel), htimestamp (by decide +kernel)⟩,
    (hlatest _).1 hnone⟩

end Redis
end Storage
end TickRelay
