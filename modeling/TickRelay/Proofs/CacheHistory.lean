import TickRelay.Cache
import TickRelay.Proofs.Runs
import TickRelay.Proofs.TableView
import TickRelay.Proofs.TimeOrder
import Mathlib.Data.List.DropRight

/-!
# What the cache holds after some calls

A tick leaves the cache because newer ones of its symbol take its place, or
because a sweep finds it too old. Both drop from the front of the same list.

**Input.** Calls in the order in which they are made, with a clock that never
goes back.

**Algorithm.** `recent` says what is to be kept of a symbol, from the calls
alone: the last arrivals, as many as there is room for, without those that are
too old for the latest sweep. What is too old comes first, so it does not
matter which of the two rules is applied first: `rtake_filter_concat`.

**Results.** `Follows.step` carries the rule over one call, `follows_of_calls`
over all of them, and `removed_add_kept` counts what a sweep drops. Together
they are `ticks_by_history`.
-/

namespace TickRelay
namespace Cache

/-- A call of the cache, with the clock. -/
inductive Call where
  | add (now : Instant) (symbol : Bytes) (tick : Tick)
  | sweep (now : Instant)

namespace Call

def time : Call → Instant
  | add now _ _ | sweep now => now

/-- The tick that a call brings to a symbol. -/
def arrival? (symbol : Bytes) : Call → Option Received
  | add now s tick => if s = symbol then some ⟨tick, now⟩ else none
  | sweep _ => none

def swept? : Call → Option Instant
  | add _ _ _ => none
  | sweep now => some now

end Call

/-- A cache without ticks. -/
def blank (maxTicks maxAge : Int64) : Cache := { maxTicks, maxAge }

/-- The cache after a call. -/
def step? (c : Cache) : Call → Option Cache
  | .add now symbol tick => c.add? now symbol tick
  | .sweep now => some (c.sweep now).1

/-- No call is made before an earlier one. -/
def InOrder (calls : List Call) : Prop :=
  calls.Pairwise fun a b => a.time.nanos ≤ b.time.nanos

/-- The ticks that calls bring to a symbol, in the order of their arrival. -/
def arrivals (symbol : Bytes) (calls : List Call) : List Received :=
  calls.filterMap (·.arrival? symbol)

def lastSweep? (calls : List Call) : Option Instant :=
  (calls.filterMap Call.swept?).getLast?

/-- Whether a tick is not too old for a sweep. -/
def isCurrent (maxAge : Int64) (sweep? : Option Instant) (r : Received) :
    Bool :=
  sweep?.all fun now => now.nanos - maxAge.toInt ≤ r.time.nanos

/-- What is to be kept of a symbol after some calls. -/
def recent (maxTicks maxAge : Int64) (symbol : Bytes) (calls : List Call) :
    List Received :=
  ((arrivals symbol calls).rtake maxTicks.toInt.toNat).filter
    (isCurrent maxAge (lastSweep? calls))

section Rules

variable {α : Type} {p : α → Bool}

/-- Where what passes a test comes last, the last members that pass are those
that pass of the last. -/
theorem filter_rtake {l : List α}
    (h : l.Pairwise fun a b => p a = true → p b = true) (n : Nat) :
    (l.rtake n).filter p = (l.filter p).rtake n := by
  induction l using List.reverseRecOn generalizing n with
  | nil => simp
  | append_singleton l x ih =>
      obtain ⟨hl, -, hx⟩ := List.pairwise_append.mp h
      cases n with
      | zero => simp
      | succ n =>
          rw [List.rtake_concat_succ, List.filter_append, List.filter_append]
          cases hp : p x with
          | true => simp [hp, ih hl]
          | false =>
              -- The last member fails, and so do all the others.
              have hnone : l.filter p = [] := by
                refine List.filter_eq_nil_iff.mpr fun a ha hpa => ?_
                rw [hx a ha x (List.mem_singleton.mpr rfl) hpa] at hp
                cases hp
              simp [hp, ih hl, hnone]

theorem rtake_rtake_concat (l : List α) (x : α) (n : Nat) :
    (l.rtake n ++ [x]).rtake n = (l ++ [x]).rtake n := by
  cases n with
  | zero => simp
  | succ n => simp [List.rtake_eq_reverse_take_reverse, List.take_take]

/-- One more member may be added after both rules were applied. -/
theorem rtake_filter_concat {l : List α} {x : α} (hx : p x = true)
    (h : (l ++ [x]).Pairwise fun a b => p a = true → p b = true) (n : Nat) :
    ((l.rtake n).filter p ++ [x]).rtake n = ((l ++ [x]).rtake n).filter p := by
  have hl := (List.pairwise_append.mp h).1
  calc ((l.rtake n).filter p ++ [x]).rtake n
      = ((l.filter p).rtake n ++ [x]).rtake n := by rw [filter_rtake hl]
    _ = (l.filter p ++ [x]).rtake n := rtake_rtake_concat _ x n
    _ = ((l ++ [x]).filter p).rtake n := by
      rw [List.filter_append, List.filter_singleton, hx]; rfl
    _ = ((l ++ [x]).rtake n).filter p := (filter_rtake h n).symm

end Rules

variable {c : Cache} {maxTicks maxAge : Int64} {calls : List Call}
  {now : Instant} {symbol : Bytes} {tick : Tick}

section History

theorem arrivals_concat (symbol : Bytes) (calls : List Call) (call : Call) :
    arrivals symbol (calls ++ [call]) =
      arrivals symbol calls ++ (call.arrival? symbol).toList := by
  rw [arrivals, List.filterMap_append, arrivals]
  cases h : call.arrival? symbol with
  | none => rw [List.filterMap_cons_none h]; rfl
  | some r => rw [List.filterMap_cons_some h]; rfl

theorem lastSweep?_add (calls : List Call) (now : Instant) (symbol : Bytes)
    (tick : Tick) :
    lastSweep? (calls ++ [.add now symbol tick]) = lastSweep? calls := by
  rw [lastSweep?, List.filterMap_append, List.filterMap_cons_none rfl,
    List.filterMap_nil, List.append_nil, lastSweep?]

theorem lastSweep?_sweep (calls : List Call) (now : Instant) :
    lastSweep? (calls ++ [.sweep now]) = some now := by
  rw [lastSweep?, List.filterMap_append]
  exact List.getLast?_concat

theorem sorted_arrivals (h : InOrder calls) (symbol : Bytes) :
    (arrivals symbol calls).Pairwise fun a b =>
      a.time.nanos ≤ b.time.nanos := by
  have htime : ∀ {call : Call} {r : Received}, call.arrival? symbol = some r →
      r.time = call.time := by
    intro call r hr
    cases call with
    | sweep now => cases hr
    | add now s tick =>
        rw [Call.arrival?] at hr
        split at hr
        · cases hr
          rfl
        · cases hr
  refine List.Pairwise.filterMap _ (fun a b hab r hr q hq => ?_) h
  rw [htime hr, htime hq]
  exact hab

theorem lastSweep?_le {call : Call} (horder : InOrder (calls ++ [call]))
    {last : Instant} (hlast : lastSweep? calls = some last) :
    last.nanos ≤ call.time.nanos := by
  obtain ⟨a, ha, hswept⟩ := List.mem_filterMap.mp (List.mem_of_getLast? hlast)
  have hle :=
    (List.pairwise_append.mp horder).2.2 a ha call (List.mem_singleton.mpr rfl)
  cases a with
  | add => cases hswept
  | sweep t =>
      cases hswept
      exact hle

end History

section Views

theorem received_add (c : Cache) (now : Instant) (symbol : Bytes) (tick : Tick)
    (s : Bytes) :
    (c.add now symbol tick).received s =
      if s = symbol then
        List.rtake (c.received symbol ++ [⟨tick, now⟩]) c.maxTicks.toInt.toNat
      else c.received s := by
  rw [received, add, Table.get?_set]
  split
  · rfl
  · rfl

theorem get?_sweep (c : Cache) (now : Instant) (s : Bytes) :
    (c.sweep now).1.symbols.get? s =
      ((c.symbols.get? s).filter fun l => l.isEmpty ||
        !(fresh (c.cutoff now) l).isEmpty).map (fresh (c.cutoff now)) := by
  rw [sweep, Table.get?_map, Table.get?_filter]

theorem received_sweep (c : Cache) (now : Instant) (s : Bytes) :
    (c.sweep now).1.received s = fresh (c.cutoff now) (c.received s) := by
  rw [received, get?_sweep, received]
  cases c.symbols.get? s with
  | none => rfl
  | some l =>
      rw [Option.filter]
      split
      case isTrue => rfl
      case isFalse hgone =>
        -- A symbol is forgotten only if nothing of it is left.
        have hnothing : fresh (c.cutoff now) l = [] := by
          simp only [Bool.or_eq_true, Bool.not_eq_true', not_or,
            Bool.not_eq_false] at hgone
          exact List.isEmpty_iff.mp hgone.2
        exact hnothing.symm

/-- Of ticks in the order of their arrival exactly those within the age are
left. -/
theorem fresh_eq_filter (hage : 0 < c.maxAge) (now : Instant)
    {l : List Received}
    (h : l.Pairwise fun a b => a.time.nanos ≤ b.time.nanos) :
    fresh (c.cutoff now) l = l.filter (isCurrent c.maxAge (some now)) := by
  rw [fresh, Instant.dropWhile_before Received.time _ h]
  refine List.filter_congr fun r _ => ?_
  apply Bool.eq_iff_iff.mpr
  rw [Instant.not_before_iff, cutoff, Instant.nanos_shift_neg _ hage]
  exact decide_eq_true_iff.symm

end Views

section Counting

/-- How many ticks a table holds. -/
theorem foldl_length (l : List (Bytes × List Received)) (n : Nat) :
    l.foldl (fun n e => n + e.2.length) n =
      n + (l.flatMap Prod.snd).length := by
  induction l generalizing n with
  | nil => rfl
  | cons e l ih =>
      rw [List.foldl_cons, ih, List.flatMap_cons, List.length_append]
      omega

theorem flatMap_kept (l : List (Bytes × List Received)) (limit : Instant) :
    ((l.filter fun e => e.2.isEmpty || !(fresh limit e.2).isEmpty).map
        fun e => (e.1, fresh limit e.2)).flatMap Prod.snd =
      l.flatMap fun e => fresh limit e.2 := by
  induction l with
  | nil => rfl
  | cons e l ih =>
      rw [List.filter_cons]
      split
      case isTrue =>
        rw [List.map_cons, List.flatMap_cons, ih, List.flatMap_cons]
      case isFalse hgone =>
        simp only [Bool.or_eq_true, Bool.not_eq_true', not_or,
          Bool.not_eq_false] at hgone
        rw [ih, List.flatMap_cons, List.isEmpty_iff.mp hgone.2,
          List.nil_append]

theorem length_flatMap_fresh_le (l : List (Bytes × List Received))
    (limit : Instant) :
    (l.flatMap fun e => fresh limit e.2).length ≤
      (l.flatMap Prod.snd).length := by
  induction l with
  | nil => exact Nat.le_refl _
  | cons e l ih =>
      have hle : (fresh limit e.2).length ≤ e.2.length :=
        (List.dropWhile_sublist _).length_le
      rw [List.flatMap_cons, List.flatMap_cons, List.length_append,
        List.length_append]
      omega

/-- The ticks of the symbols, whatever is made of each of them, are those of
the entries. -/
theorem perm_flatMap_entries (c : Cache) (f : List Received → List Received) :
    (c.sortedSymbols.flatMap fun s => f (c.received s)).Perm
        (c.symbols.entries.flatMap fun e => f e.2) := by
  have hentries : (c.symbols.keys.flatMap fun s => f (c.received s)) =
      c.symbols.entries.flatMap fun e => f e.2 := by
    rw [Table.keys, List.flatMap_map]
    refine List.flatMap_congr fun e he => ?_
    rw [received, (Table.mem_entries_iff c.symbols e.1 e.2).mp he]
    rfl
  rw [← hentries]
  exact (Table.perm_sortedKeys c.symbols).flatMap_right _

theorem length_flatMap_ticks (c : Cache) (symbols : List Bytes) :
    (symbols.flatMap c.ticks).length =
      (symbols.flatMap c.received).length := by
  have hmap :
      symbols.flatMap c.ticks =
        (symbols.flatMap c.received).map Received.tick :=
    List.map_flatMap.symm
  rw [hmap, List.length_map]

/-- A sweep tells how many ticks it dropped, of all symbols together. -/
theorem removed_add_kept (c : Cache) (now : Instant) :
    (c.sweep now).2 + (c.sortedSymbols.flatMap (c.sweep now).1.ticks).length =
      (c.sortedSymbols.flatMap c.ticks).length := by
  have hheld := (c.perm_flatMap_entries id).length_eq
  have hkept := (c.perm_flatMap_entries (fresh (c.cutoff now))).length_eq
  have hle := length_flatMap_fresh_le c.symbols.entries (c.cutoff now)
  have hremoved :
      (c.sweep now).2 =
        (c.symbols.entries.flatMap Prod.snd).length -
          (c.symbols.entries.flatMap fun e =>
            fresh (c.cutoff now) e.2).length := by
    rw [← flatMap_kept, sweep]
    dsimp only
    rw [foldl_length, foldl_length, Nat.zero_add, Nat.zero_add]
    rfl
  have hafter : (c.sweep now).1.received = fun s =>
      fresh (c.cutoff now) (c.received s) :=
    funext (c.received_sweep now)
  rw [length_flatMap_ticks, length_flatMap_ticks, hafter, hkept, hremoved]
  exact (Nat.sub_add_cancel hle).trans hheld.symm

end Counting

section Following

/-- A cache keeps what is to be kept, and a symbol only with ticks. -/
structure Follows (c : Cache) (maxTicks maxAge : Int64) (calls : List Call) :
    Prop where
  maxTicks_eq : c.maxTicks = maxTicks
  maxAge_eq : c.maxAge = maxAge
  contents : ∀ s, c.received s = recent maxTicks maxAge s calls
  filled : ∀ s l, c.symbols.get? s = some l → l ≠ []

theorem follows_blank (maxTicks maxAge : Int64) :
    (blank maxTicks maxAge).Follows maxTicks maxAge [] where
  maxTicks_eq := rfl
  maxAge_eq := rfl
  contents s := by
    rw [recent, arrivals, List.filterMap_nil, List.rtake_nil]
    rfl
  filled _ _ hget := by cases hget

/-- A tick that just arrived is not too old. -/
theorem isCurrent_now (hage : 0 < maxAge)
    (horder : InOrder (calls ++ [.add now symbol tick])) :
    isCurrent maxAge (lastSweep? calls) ⟨tick, now⟩ = true := by
  have hpos : 0 < maxAge.toInt := Int64.lt_iff_toInt_lt.mp hage
  cases hlast : lastSweep? calls with
  | none => rfl
  | some last =>
      have hle : last.nanos ≤ now.nanos := lastSweep?_le horder hlast
      refine decide_eq_true ?_
      show last.nanos - maxAge.toInt ≤ now.nanos
      omega

/-- What an earlier sweep dropped, a later one would drop as well. -/
theorem isCurrent_of_later (horder : InOrder (calls ++ [.sweep now]))
    {r : Received} (h : isCurrent maxAge (some now) r = true) :
    isCurrent maxAge (lastSweep? calls) r = true := by
  have hlimit : now.nanos - maxAge.toInt ≤ r.time.nanos := of_decide_eq_true h
  cases hlast : lastSweep? calls with
  | none => rfl
  | some last =>
      have hle : last.nanos ≤ now.nanos := lastSweep?_le horder hlast
      refine decide_eq_true ?_
      omega

theorem rtake_concat_ne_nil (hticks : 1 ≤ maxTicks) (l : List Received)
    (r : Received) : (l ++ [r]).rtake maxTicks.toInt.toNat ≠ [] := by
  have hone : 1 ≤ maxTicks.toInt := Int64.le_iff_toInt_le.mp hticks
  obtain ⟨n, hn⟩ : ∃ n, maxTicks.toInt.toNat = n + 1 :=
    ⟨maxTicks.toInt.toNat - 1, by omega⟩
  rw [hn, List.rtake_concat_succ]
  exact List.concat_ne_nil r _

/-- What is not too old is followed by nothing that is. -/
theorem isCurrent_of_sorted (sweep? : Option Instant) {l : List Received}
    (h : l.Pairwise fun a b => a.time.nanos ≤ b.time.nanos) :
    l.Pairwise fun a b => isCurrent maxAge sweep? a = true →
    isCurrent maxAge sweep? b = true := by
  refine h.imp fun {a b} hab ha => ?_
  cases sweep? with
  | none => rfl
  | some now =>
      have hlimit : now.nanos - maxAge.toInt ≤ a.time.nanos :=
        of_decide_eq_true ha
      exact decide_eq_true (Int.le_trans hlimit hab)

theorem Follows.sorted (h : c.Follows maxTicks maxAge calls)
    (horder : InOrder calls) (s : Bytes) :
    (c.received s).Pairwise fun a b => a.time.nanos ≤ b.time.nanos := by
  rw [h.contents, recent]
  exact (sorted_arrivals horder s).sublist
    (List.filter_sublist.trans (List.drop_sublist _ _))

theorem Follows.add (h : c.Follows maxTicks maxAge calls)
    (hticks : 1 ≤ maxTicks) (hage : 0 < maxAge)
    (horder : InOrder (calls ++ [.add now symbol tick])) :
    (c.add now symbol tick).Follows maxTicks maxAge
        (calls ++ [.add now symbol tick]) where
  maxTicks_eq := h.maxTicks_eq
  maxAge_eq := h.maxAge_eq
  contents s := by
    have hsorted := sorted_arrivals horder s
    rw [received_add, h.maxTicks_eq, recent, lastSweep?_add]
    rw [arrivals_concat, Call.arrival?] at hsorted ⊢
    split
    case isTrue hs =>
      subst hs
      rw [if_pos rfl] at hsorted ⊢
      rw [h.contents, recent]
      -- The arrivals before went through both rules, and the new one passes
      -- them.
      exact rtake_filter_concat (isCurrent_now hage horder)
        (isCurrent_of_sorted _ hsorted) _
    case isFalse hs =>
      rw [if_neg (Ne.symm hs), Option.toList_none, List.append_nil,
        h.contents, recent]
  filled s l hget := by
    rw [Cache.add, Table.get?_set] at hget
    split at hget
    case isTrue =>
      cases hget
      rw [h.maxTicks_eq]
      exact rtake_concat_ne_nil hticks _ _
    case isFalse => exact h.filled s l hget

theorem Follows.sweep (h : c.Follows maxTicks maxAge calls) (hage : 0 < maxAge)
    (horder : InOrder (calls ++ [.sweep now])) :
    (c.sweep now).1.Follows maxTicks maxAge (calls ++ [.sweep now]) where
  maxTicks_eq := h.maxTicks_eq
  maxAge_eq := h.maxAge_eq
  contents s := by
    have hsorted := h.sorted (List.pairwise_append.mp horder).1 s
    have hcage : 0 < c.maxAge := h.maxAge_eq ▸ hage
    rw [received_sweep, fresh_eq_filter hcage now hsorted, h.maxAge_eq,
      h.contents, recent, recent, lastSweep?_sweep, arrivals_concat,
      List.filter_filter]
    rw [Call.arrival?, Option.toList_none, List.append_nil]
    refine List.filter_congr fun r _ => ?_
    exact Bool.and_eq_left_iff_imp.mpr (isCurrent_of_later horder)
  filled s l hget := by
    rw [get?_sweep] at hget
    obtain ⟨l', hl', rfl⟩ := Option.map_eq_some_iff.mp hget
    obtain ⟨hbefore, hkept⟩ := Option.filter_eq_some_iff.mp hl'
    rcases Bool.or_eq_true_iff.mp hkept with hempty | hleft
    · exact absurd (List.isEmpty_iff.mp hempty) (h.filled s l' hbefore)
    · rw [Bool.not_eq_true', List.isEmpty_eq_false_iff] at hleft
      exact hleft

theorem Follows.mem_sortedSymbols (h : c.Follows maxTicks maxAge calls)
    {s : Bytes} : s ∈ c.sortedSymbols ↔ c.received s ≠ [] := by
  rw [sortedSymbols, (Table.perm_sortedKeys c.symbols).mem_iff,
    Table.mem_keys, received]
  cases hget : c.symbols.get? s with
  | none => simp
  | some l => simp [h.filled s l hget]

theorem Follows.add?_eq (h : c.Follows maxTicks maxAge calls)
    (hticks : 1 ≤ maxTicks) (now : Instant) (symbol : Bytes) (tick : Tick) :
    c.add? now symbol tick = some (c.add now symbol tick) := by
  refine add?_of_nonneg now symbol tick ?_
  have hone : 1 ≤ maxTicks.toInt := Int64.le_iff_toInt_le.mp hticks
  rw [h.maxTicks_eq, Int64.le_iff_toInt_le]
  exact Int.le_trans Int.one_nonneg hone

theorem Follows.step (h : c.Follows maxTicks maxAge calls)
    (hticks : 1 ≤ maxTicks) (hage : 0 < maxAge) {call : Call}
    (horder : InOrder (calls ++ [call])) :
    ∃ c', c.step? call = some c' ∧
      c'.Follows maxTicks maxAge (calls ++ [call]) := by
  cases call with
  | add now symbol tick =>
      exact ⟨_, h.add?_eq hticks now symbol tick, h.add hticks hage horder⟩
  | sweep now => exact ⟨_, rfl, h.sweep hage horder⟩

theorem follows_of_calls (hticks : 1 ≤ maxTicks) (hage : 0 < maxAge)
    (horder : InOrder calls) :
    ∃ c, Runs.run step? (blank maxTicks maxAge) calls = some c ∧
      c.Follows maxTicks maxAge calls := by
  induction calls using List.reverseRecOn with
  | nil => exact ⟨_, rfl, follows_blank maxTicks maxAge⟩
  | append_singleton calls call ih =>
      obtain ⟨c, hrun, hc⟩ := ih (List.pairwise_append.mp horder).1
      obtain ⟨c', hstep, hc'⟩ := hc.step hticks hage horder
      exact ⟨c',
        Runs.run_append.mpr ⟨c, hrun, Runs.run_cons.mpr ⟨c', hstep, rfl⟩⟩, hc'⟩

end Following

/-- What holds of a cache after some calls. -/
structure Reflects (c : Cache) (maxTicks maxAge : Int64) (calls : List Call) :
    Prop where
  ticks : ∀ s, c.ticks s = (recent maxTicks maxAge s calls).map Received.tick
  symbols_once : c.sortedSymbols.Nodup
  symbol : ∀ s, s ∈ c.sortedSymbols ↔ recent maxTicks maxAge s calls ≠ []
  /-- A sweep leaves of each symbol what is not too old. -/
  swept : ∀ now s,
    (c.sweep now).1.received s =
      (c.received s).filter (isCurrent maxAge (some now))
  /-- It tells how many ticks it dropped, of all symbols together. -/
  removed : ∀ now,
    (c.sweep now).2 + (c.sortedSymbols.flatMap (c.sweep now).1.ticks).length =
      (c.sortedSymbols.flatMap c.ticks).length
  /-- A tick of one symbol leaves all others as they are. -/
  others : ∀ now symbol tick, ∃ c', c.add? now symbol tick = some c' ∧
    ∀ s, s ≠ symbol → c'.ticks s = c.ticks s

/-- **The cache by its history.** After any calls with a clock that never goes
back, the cache holds of each symbol the last ticks there is room for, without
those that are too old for the latest sweep. -/
theorem ticks_by_history {maxTicks maxAge : Int64} {calls : List Call}
    (hticks : 1 ≤ maxTicks) (hage : 0 < maxAge) (horder : InOrder calls) :
    ∃ c, Runs.run step? (blank maxTicks maxAge) calls = some c ∧
      c.Reflects maxTicks maxAge calls := by
  obtain ⟨c, hrun, hc⟩ := follows_of_calls hticks hage horder
  refine ⟨c, hrun, fun s => congrArg (List.map Received.tick) (hc.contents s),
    ?_, ?_, ?_, removed_add_kept c, ?_⟩
  · exact (Table.perm_sortedKeys c.symbols).nodup_iff.mpr c.symbols.distinct
  · intro s
    rw [hc.mem_sortedSymbols, hc.contents]
  · intro now s
    have hcage : 0 < c.maxAge := hc.maxAge_eq ▸ hage
    rw [received_sweep, fresh_eq_filter hcage now (hc.sorted horder s),
      hc.maxAge_eq]
  · intro now symbol tick
    refine ⟨_, hc.add?_eq hticks now symbol tick, fun s hs => ?_⟩
    rw [Cache.ticks, received_add, if_neg hs, Cache.ticks]

/-- Two ticks of a symbol fit. The first of one symbol makes room for its
third, the second is too old for the first sweep, and the only one of another
symbol, which that sweep just leaves, for the next. -/
def mixedCalls : List Call :=
  [.add ⟨0⟩ [97] { timestamp := [0] }, .add ⟨1⟩ [97] { timestamp := [1] },
    .add ⟨2⟩ [98] { timestamp := [2] }, .add ⟨8⟩ [97] { timestamp := [3] },
    .sweep ⟨12⟩, .add ⟨12⟩ [99] { timestamp := [4] }, .sweep ⟨13⟩,
    .add ⟨13⟩ [97] { timestamp := [5] }]

theorem ticks_by_history_of_mixed_calls :
    (1 : Int64) ≤ 2 ∧ (0 : Int64) < 10 ∧ InOrder mixedCalls ∧
      ∃ c, Runs.run step? (blank 2 10) mixedCalls = some c ∧
        c.ticks [97] = [{ timestamp := [3] }, { timestamp := [5] }] ∧
        c.ticks [98] = [] ∧ [98] ∉ c.sortedSymbols ∧
        [99] ∈ c.sortedSymbols := by
  have hticks : (1 : Int64) ≤ 2 := by decide
  have hage : (0 : Int64) < 10 := by decide
  have horder : InOrder mixedCalls := by
    rw [InOrder]
    decide
  obtain ⟨c, hrun, hc⟩ := ticks_by_history hticks hage horder
  refine ⟨hticks, hage, horder, c, hrun, (hc.ticks [97]).trans rfl,
    (hc.ticks [98]).trans rfl, ?_, ?_⟩
  · rw [hc.symbol]
    decide
  · rw [hc.symbol]
    decide

end Cache
end TickRelay
