import TickRelay.Proofs.UplinkWithdrawal
import Mathlib.Data.List.Chain
import Mathlib.Data.List.Find

/-!
# The subscription list and the calls that made it

The configured symbols are added first, in normal form, and then the calls of
the feed change the list one after the other. A session writes the list when it
opens, and each call that changes the list while there is a socket writes one
frame.

**Results.** `lists_afterCalls`: the list holds each symbol once, holds those
that were added and not withdrawn since, and has them in the order of the
earliest of these additions (`addedAt`). `symbols_of_run` finds this list in
every run, whatever the sessions do, and `frames_of_call` says what a call
writes. `alternates_of_run`: when no call is made during the replay of a
session, and no session opens during a call, the frames about one symbol on one
connection alternate. `ordered_set` puts these together.
-/

namespace TickRelay
namespace Feed

/-- The position of the earliest call that adds a symbol and is not followed by
its withdrawal. -/
def addedAt (history : List ProviderCall) (s : Bytes) : Option Nat :=
  (List.range history.length).find? fun i =>
    history[i]? == some (.subscribe s) &&
      !(history.drop i).contains (.unsubscribe s)

variable {history : List ProviderCall} {s : Bytes}

theorem addedAt_eq_some {i : Nat} (h : addedAt history s = some i) :
    history[i]? = some (.subscribe s) ∧ .unsubscribe s ∉ history.drop i := by
  simpa using List.find?_some h

theorem addedAt_lt {i : Nat} (h : addedAt history s = some i) :
    i < history.length :=
  List.mem_range.mp (List.mem_of_find?_eq_some h)

/-- One more call. -/
theorem addedAt_concat (k : ProviderCall) :
    addedAt (history ++ [k]) s = if k = .unsubscribe s then none
      else (addedAt history s).or
        (if k = .subscribe s then some history.length else none) := by
  unfold addedAt
  rw [List.length_append, List.length_singleton, List.range_succ,
    List.find?_append]
  -- The calls before the last one stand where they stood.
  have hold : (List.range history.length).find? (fun i =>
        (history ++ [k])[i]? == some (.subscribe s) &&
          !((history ++ [k]).drop i).contains (.unsubscribe s)) =
      if k = .unsubscribe s then none else addedAt history s := by
    unfold addedAt
    split
    · rename_i hk
      refine List.find?_eq_none.mpr fun i hi => ?_
      have hlt := List.mem_range.mp hi
      simp [List.drop_append_of_le_length (Nat.le_of_lt hlt), hk]
    · rename_i hk
      refine List.find?_congr fun i hi => ?_
      have hlt := List.mem_range.mp hi
      simp [List.drop_append_of_le_length (Nat.le_of_lt hlt),
        List.getElem?_append_left hlt, Ne.symm hk]
  rw [hold]
  unfold addedAt
  by_cases hk : k = .unsubscribe s
  · simp [hk]
  · by_cases hadd : k = .subscribe s <;> simp [hk, hadd]

/-- A symbol has such a position exactly if it was added and not withdrawn
since. -/
theorem isSome_addedAt :
    (addedAt history s).isSome ↔
      ∃ before after, history = before ++ .subscribe s :: after ∧
        .unsubscribe s ∉ after := by
  constructor
  · intro h
    obtain ⟨i, hi⟩ := Option.isSome_iff_exists.mp h
    obtain ⟨hget, hdrop⟩ := addedAt_eq_some hi
    obtain ⟨hlt, hget⟩ := List.getElem?_eq_some_iff.mp hget
    refine ⟨history.take i, history.drop (i + 1), ?_, ?_⟩
    · rw [← hget, ← List.drop_eq_getElem_cons hlt, List.take_append_drop]
    · intro hmem
      rw [List.drop_eq_getElem_cons hlt] at hdrop
      exact hdrop (List.mem_cons_of_mem _ hmem)
  · rintro ⟨before, after, rfl, hafter⟩
    unfold addedAt
    rw [List.find?_isSome]
    refine ⟨before.length, ?_, ?_⟩
    · simp
    · simp [hafter]

/-- What a list of symbols has to be after some calls. -/
structure Lists (history : List ProviderCall) (l : Symbols) : Prop where
  nodup : l.Nodup
  /-- The last addition of a symbol comes after its last withdrawal. -/
  mem : ∀ s, s ∈ l ↔
    ∃ before after, history = before ++ .subscribe s :: after ∧
    .unsubscribe s ∉ after
  order : l.Pairwise fun s t =>
    ∃ i j, addedAt history s = some i ∧ addedAt history t = some j ∧ i < j

theorem lists_nil : Lists [] [] :=
  ⟨List.nodup_nil, by simp, List.Pairwise.nil⟩

namespace Lists

variable {l : Symbols}

theorem mem_iff (h : Lists history l) : s ∈ l ↔ (addedAt history s).isSome :=
  (h.mem s).trans isSome_addedAt.symm

/-- An addition puts a new symbol at the end, where it belongs. -/
theorem add (h : Lists history l) (t : Bytes) :
    Lists (history ++ [.subscribe t]) (Symbols.add l t).1 := by
  have hposition : ∀ s, addedAt (history ++ [.subscribe t]) s =
      (addedAt history s).or
      (if t = s then some history.length else none) := by
    intro s
    simp [addedAt_concat]
  have hkept : ∀ s i, addedAt history s = some i →
      addedAt (history ++ [.subscribe t]) s = some i := by
    intro s i hi
    rw [hposition, hi, Option.some_or]
  have horder : l.Pairwise fun s u =>
      ∃ i j, addedAt (history ++ [.subscribe t]) s = some i ∧
        addedAt (history ++ [.subscribe t]) u = some j ∧ i < j := by
    refine h.order.imp ?_
    rintro s u ⟨i, j, hi, hj, hlt⟩
    exact ⟨i, j, hkept s i hi, hkept u j hj, hlt⟩
  refine ⟨Symbols.nodup_add h.nodup, fun s => ?_, ?_⟩
  · rw [← isSome_addedAt, hposition, Symbols.mem_add, h.mem_iff]
    by_cases hs : t = s
    · simp [hs]
    · simp [hs, Ne.symm hs]
  · unfold Symbols.add
    split
    · exact horder
    · rename_i hnew
      have hnone : addedAt history t = none := by
        rw [← Option.not_isSome_iff_eq_none, ← h.mem_iff]
        simpa using hnew
      refine List.pairwise_append.mpr ⟨horder, List.pairwise_singleton _ _,
        fun s hs u hu => ?_⟩
      rw [List.mem_singleton] at hu
      obtain ⟨i, hi⟩ := Option.isSome_iff_exists.mp (h.mem_iff.mp hs)
      refine ⟨i, history.length, hkept s i hi, ?_, addedAt_lt hi⟩
      rw [hu, hposition, hnone]
      simp

/-- A withdrawal leaves the order of the other symbols as it is. -/
theorem remove (h : Lists history l) (t : Bytes) :
    Lists (history ++ [.unsubscribe t]) (Symbols.remove l t).1 := by
  have hposition : ∀ s, addedAt (history ++ [.unsubscribe t]) s =
      if t = s then none else addedAt history s := by
    intro s
    simp [addedAt_concat]
  have hmem : ∀ s, s ∈ (Symbols.remove l t).1 ↔ s ≠ t ∧ s ∈ l :=
    fun s => Symbols.mem_remove h.nodup
  refine ⟨Symbols.nodup_remove h.nodup, fun s => ?_, ?_⟩
  · rw [← isSome_addedAt, hposition, hmem, h.mem_iff]
    by_cases hs : t = s
    · simp [hs]
    · simp [hs, Ne.symm hs]
  · have hsub : (Symbols.remove l t).1.Sublist l := by
      unfold Symbols.remove
      split
      · exact List.erase_sublist
      · exact List.Sublist.refl l
    refine (h.order.sublist hsub).imp_of_mem ?_
    rintro s u hs hu ⟨i, j, hi, hj, hlt⟩
    refine ⟨i, j, ?_, ?_, hlt⟩
    · rw [hposition, if_neg (Ne.symm ((hmem s).mp hs).1), hi]
    · rw [hposition, if_neg (Ne.symm ((hmem u).mp hu).1), hj]

end Lists

namespace Client

/-- The client after some calls, one after the other. -/
def afterCalls (c : Client) (calls : List ProviderCall) : Client :=
  calls.foldl (fun c k => (c.call k).1) c

theorem afterCalls_append (c : Client) (calls more : List ProviderCall) :
    c.afterCalls (calls ++ more) = (c.afterCalls calls).afterCalls more :=
  List.foldl_append

/-- What a call does to the list depends on the list alone. -/
theorem symbols_call {c d : Client} (h : c.symbols = d.symbols)
    (k : ProviderCall) : (c.call k).1.symbols = (d.call k).1.symbols := by
  cases k with
  | connect => exact h
  | subscribe s => exact congrArg (fun l => (Symbols.add l s).1) h
  | unsubscribe s => exact congrArg (fun l => (Symbols.remove l s).1) h

theorem lists_call {c : Client} (h : Lists history c.symbols)
    (k : ProviderCall) : Lists (history ++ [k]) (c.call k).1.symbols := by
  cases k with
  | connect =>
      have hposition :
          ∀ s, addedAt (history ++ [.connect]) s = addedAt history s := by
        intro s
        simp [addedAt_concat]
      refine ⟨h.nodup, fun s => ?_, ?_⟩
      · rw [← isSome_addedAt, hposition]
        exact h.mem_iff
      · simp only [hposition]
        exact h.order
  | subscribe s => exact h.add s
  | unsubscribe s => exact h.remove s

/-- The calls that stand for the configured symbols. -/
def configuring (configured : List Bytes) : List ProviderCall :=
  configured.map fun s => .subscribe (Symbol.normalize s)

theorem symbols_ofConfigured (configured : List Bytes) :
    (ofConfigured configured).symbols =
      (afterCalls {} (configuring configured)).symbols := by
  have hadd : ∀ (symbols : List Bytes) (c : Client),
      symbols.foldl (fun l s => (Symbols.add l (Symbol.normalize s)).1)
      c.symbols = (c.afterCalls (configuring symbols)).symbols := by
    intro symbols
    induction symbols with
    | nil => intro c; rfl
    | cons s symbols ih =>
        intro c; exact ih (c.call (.subscribe (Symbol.normalize s))).1
  exact hadd configured {}

theorem lists_afterCalls {c : Client} (h : Lists history c.symbols)
    (calls : List ProviderCall) :
    Lists (history ++ calls) (c.afterCalls calls).symbols := by
  induction calls generalizing c history with
  | nil =>
      rw [List.append_nil]
      exact h
  | cons k calls ih =>
      have hrest := ih (lists_call h k)
      rwa [List.append_assoc] at hrest

theorem lists_configured (configured : List Bytes)
    (calls : List ProviderCall) :
    Lists (configuring configured ++ calls)
        ((ofConfigured configured).afterCalls calls).symbols := by
  refine lists_afterCalls ?_ calls
  rw [symbols_ofConfigured]
  exact @lists_afterCalls [] {} lists_nil (configuring configured)

end Client

end Feed

/-- The request of a call that changes the list. -/
def ProviderCall.request? : ProviderCall → Option Feed.Request
  | connect => none
  | subscribe s => some (.subscribe s)
  | unsubscribe s => some (.unsubscribe s)

namespace Feed
namespace Client

/-- A call has a frame to write exactly if it changes the list while there is a
socket. -/
theorem call_snd {c : Client} {n : Nat} (hsocket : c.socket = some n)
    (k : ProviderCall) :
    (c.call k).2 = if (c.call k).1.symbols = c.symbols then none
      else k.request?.map fun r => (n, r) := by
  cases k with
  | connect => simp [call, connect]
  | subscribe s =>
      by_cases hs : s ∈ c.symbols
      · simp [call, subscribe, Symbols.add, hs]
      · simp [call, subscribe, Symbols.add, hs, hsocket, ProviderCall.request?]
  | unsubscribe s =>
      by_cases hs : s ∈ c.symbols
      · have hchanged : c.symbols.erase s ≠ c.symbols := by
          intro heq
          have hlength := List.length_erase_of_mem hs
          rw [heq] at hlength
          have hpos := List.length_pos_of_mem hs
          omega
        simp [call, unsubscribe, Symbols.remove, hs, hsocket, hchanged,
          ProviderCall.request?]
      · simp [call, unsubscribe, Symbols.remove, hs]

end Client

namespace Uplink

variable {u v w : Uplink} {e : Event} {n : Nat}

/-- The call that an event makes, if any. -/
def Event.call? : Event → Option ProviderCall
  | .call c => some c
  | _ => none

theorem symbols_of_move (h : Move u e v) :
    v.client.symbols = (u.client.afterCalls e.call?.toList).symbols := by
  cases h <;> rfl

/-- The list is that of the calls of the run, whatever the sessions do. -/
theorem symbols_of_run {configured : List Bytes} {es : List Event}
    (h : Runs.run step (start configured) es = some u) :
    u.client.symbols =
      ((Client.ofConfigured configured).afterCalls
        (es.filterMap Event.call?)).symbols := by
  refine Runs.run_history
    (P := fun es x => x.client.symbols =
      ((Client.ofConfigured configured).afterCalls
        (es.filterMap Event.call?)).symbols) rfl ?_ h
  intro es x e y _ hx hstep
  rw [symbols_of_move (move_of_step hstep), List.filterMap_append,
    Client.afterCalls_append]
  cases e with
  | call c => exact Client.symbols_call hx c
  | _ => exact hx

/-- The session writes the next symbols of its copy. -/
theorem frames_of_replays {k : Nat} (hsocket : u.client.socket = some n)
    (h : Runs.run step u (List.replicate k .replays) = some v) :
    v.client = u.client ∧ v.call = u.call ∧
      v.frames = ((u.replay.take k).map fun s =>
        (n, .subscribe s)).reverse ++ u.frames := by
  induction k generalizing u with
  | zero =>
      cases h
      simp
  | succ k ih =>
      obtain ⟨x, hstep, hrest⟩ := Runs.run_cons.mp h
      cases move_of_step hstep with
      | @replays m s rest hopen hnext =>
          have hm : m = n := Option.some.inj (hopen.symm.trans hsocket)
          obtain ⟨hclient, hcall, hframes⟩ := ih (u := { u with
            replay := rest
            frames := (m, .subscribe s) :: u.frames }) hsocket hrest
          refine ⟨hclient, hcall, ?_⟩
          rw [hframes, hnext, hm]
          simp

/-- What a call has to write arrives when its connection is still there. -/
theorem frames_of_write {f : Option (Nat × Request)} {arrives : Bool}
    (hcall : u.call = some f)
    (hopen : ∀ g, f = some g → u.client.socket = some g.1)
    (h : step u (.write arrives) = some v) :
    v.client = u.client ∧ v.frames = f.toList ++ u.frames := by
  cases move_of_step h with
  | returned hnone =>
      cases hcall.symm.trans hnone
      exact ⟨rfl, rfl⟩
  | wrote hsome =>
      cases hcall.symm.trans hsome
      exact ⟨rfl, rfl⟩
  | lost hsome hother =>
      cases hcall.symm.trans hsome
      exact absurd (hopen _ rfl) hother

/-- A call on a connection that stays writes its frame if it changed the list,
after what the session writes meanwhile, and else nothing. -/
theorem frames_of_call {k : Nat} {c : ProviderCall} {arrives : Bool}
    (hsocket : u.client.socket = some n)
    (h : Runs.run step u
      (.call c :: (List.replicate k .replays ++ [.write arrives])) = some w) :
    w.frames =
      (if w.client.symbols =
        u.client.symbols then []
        else (c.request?.map fun r => (n, r)).toList) ++
      ((u.replay.take k).map fun s => (n, .subscribe s)).reverse ++
      u.frames := by
  obtain ⟨x, hcall, hrest⟩ := Runs.run_cons.mp h
  obtain ⟨y, hreplays, hlast⟩ := Runs.run_append.mp hrest
  obtain ⟨z, hwrite, hz⟩ := Runs.run_cons.mp hlast
  cases hz
  cases move_of_step hcall with
  | called hfree =>
      have hopen : (u.client.call c).1.socket = some n :=
        Client.call_socket.trans hsocket
      obtain ⟨hclient, hpending, hframes⟩ := frames_of_replays (u := { u with
        client := (u.client.call c).1
        call := some (u.client.call c).2 }) hopen hreplays
      have hsame : ∀ g, (u.client.call c).2 = some g →
          y.client.socket = some g.1 := by
        rintro ⟨m, r⟩ hg
        rw [hclient, (Client.call_frame.mp hg).1.symm]
        exact Client.call_socket
      obtain ⟨hkept, hwritten⟩ := frames_of_write hpending hsame hwrite
      rw [hwritten, hframes, hkept, hclient, Client.call_snd hsocket c]
      split <;> simp

/-- The requests about a symbol on a connection, newest first. -/
def requestsAbout (n : Nat) (s : Bytes) (frames : List (Nat × Request)) :
    List Request :=
  (frames.filter fun f => f.1 == n && f.2.concerns s).map (·.2)

theorem requestsAbout_cons {frames : List (Nat × Request)}
    {f : Nat × Request} :
    requestsAbout n s (f :: frames) =
      if f.1 = n ∧ f.2.concerns s then f.2 :: requestsAbout n s frames
      else requestsAbout n s frames := by
  unfold requestsAbout
  by_cases hf : f.1 = n ∧ f.2.concerns s
  · simp [hf]
  · have hfalse : (f.1 == n && f.2.concerns s) = false := by simpa using hf
    simp [hf, hfalse]

theorem head?_requestsAbout {frames : List (Nat × Request)} :
    (requestsAbout n s frames).head? = lastFrame n s frames := by
  unfold requestsAbout lastFrame
  rw [List.head?_map, List.head?_filter]

/-- Whether an event keeps the replay of a session and the calls apart. -/
def isSeparate (u : Uplink) : Event → Bool
  | .opens => u.call.isNone
  | .call _ => u.replay.isEmpty
  | _ => true

/-- One event of a run in which no call is made during a replay and no session
opens during a call. -/
def separateStep (u : Uplink) (e : Event) : Option Uplink :=
  if u.isSeparate e then u.step e else none

/-- What holds as long as replays and calls are kept apart. -/
structure Separated (u : Uplink) : Prop where
  orderly : Orderly u
  requested : Requested u
  distinct : u.replay.Nodup
  /-- Nothing has been written yet about a symbol that the session comes to. -/
  fresh : ∀ n s, u.client.socket = some n → s ∈ u.replay →
    lastFrame n s u.frames = none
  listed : ∀ s ∈ u.replay, s ∈ u.client.symbols
  idle : u.replay ≠ [] → u.call = none
  unstranded : ∀ n s, ¬ Stranded u n s
  pending : ∀ n r s, u.call = some (some (n, r)) → r.concerns s →
    lastFrame n s u.frames ≠ some r
  alternates : ∀ n s, (requestsAbout n s u.frames).IsChain (· ≠ ·)

theorem separated_start (configured : List Bytes) :
    Separated (start configured) where
  orderly := orderly_start configured
  requested := by
    intro n s hsocket
    simp [start, Client.ofConfigured] at hsocket
  distinct := List.nodup_nil
  fresh := by simp [start]
  listed := by simp [start]
  idle := by simp [start]
  unstranded := by
    intro n s h
    have hopen := h.connected
    simp [start, Client.ofConfigured] at hopen
  pending := by simp [start]
  alternates := fun _ _ => List.IsChain.nil

/-- A frame that says something else than the last one keeps the requests
alternating. -/
theorem alternates_cons {frames : List (Nat × Request)} {f : Nat × Request}
    (h : (requestsAbout n s frames).IsChain (· ≠ ·))
    (hlast : f.1 = n → f.2.concerns s → lastFrame n s frames ≠ some f.2) :
    (requestsAbout n s (f :: frames)).IsChain (· ≠ ·) := by
  rw [requestsAbout_cons]
  split
  · rename_i hf
    refine h.cons fun r hr heq => ?_
    rw [head?_requestsAbout] at hr
    exact hlast hf.1 hf.2 (heq ▸ hr)
  · exact h

namespace Separated

theorem empty_of_call (hu : Separated u) {f : Option (Nat × Request)}
    (hcall : u.call = some f) : u.replay = [] := by
  by_contra hreplay
  rw [hu.idle hreplay] at hcall
  cases hcall

/-- The session comes to one symbol after the other, and none of them has been
written about. -/
theorem fresh_move (hu : Separated u) (hseparate : u.isSeparate e)
    (hmove : Move u e v) (hsocket : v.client.socket = some n) {s : Bytes}
    (hs : s ∈ v.replay) : lastFrame n s v.frames = none := by
  cases hmove with
  | opens hclosed =>
      have hn : u.opened = n := Option.some.inj hsocket
      refine lastFrame_of_unused fun f hf => ?_
      have hlt := hu.orderly.numbered f hf
      omega
  | @replays m t rest hopen hnext =>
      have hdistinct := hu.distinct
      rw [hnext, List.nodup_cons] at hdistinct
      have hts : t ≠ s := by
        rintro rfl
        exact hdistinct.1 hs
      rw [lastFrame_cons, if_neg (by simp [Request.concerns, hts])]
      exact hu.fresh n s hsocket (hnext ▸ List.mem_cons_of_mem t hs)
  | ends => cases hsocket
  | called hfree => simp [List.isEmpty_iff.mp hseparate] at hs
  | returned hcall => simp [hu.empty_of_call hcall] at hs
  | wrote hcall => simp [hu.empty_of_call hcall] at hs
  | lost hcall hother => simp [hu.empty_of_call hcall] at hs

/-- The session strands no symbol, as it comes only to those on the list. -/
theorem unstranded_move (hu : Separated u) (hmove : Move u e v) (s : Bytes) :
    ¬ Stranded v n s := by
  intro h
  rcases (h.before hu.orderly hmove).2.2 with hbefore | ⟨-, hlate⟩
  · exact hu.unstranded n s hbefore
  · exact hlate.removed (hu.listed s (List.mem_of_mem_head? hlate.next))

/-- A call that changes the list has something new to say. -/
theorem pending_move (hu : Separated u) (hseparate : u.isSeparate e)
    (hmove : Move u e v) {r : Request} {s : Bytes}
    (hcall : v.call = some (some (n, r))) (hr : r.concerns s) :
    lastFrame n s v.frames ≠ some r := by
  cases hmove with
  | opens hclosed => exact hu.pending n r s hcall hr
  | replays hopen hnext =>
      have hfree := hu.idle (by simp [hnext])
      rw [hfree] at hcall
      cases hcall
  | ends => exact hu.pending n r s hcall hr
  | @called k hfree =>
      obtain ⟨hsocket, ⟨t, rfl, ht, rfl⟩ | ⟨t, rfl, ht, rfl⟩⟩ :=
        Client.call_frame.mp (Option.some.inj hcall)
      · have hts : t = s := by simpa [Request.concerns] using hr
        intro hlast
        rw [hts] at ht hlast
        exact hu.unstranded n s ⟨hsocket, ht, by simp [hfree], hlast⟩
      · have hts : t = s := by simpa [Request.concerns] using hr
        rcases hu.requested n t hsocket ht with hreplay | hpending | hlast
        · simp [List.isEmpty_iff.mp hseparate] at hreplay
        · rw [hfree] at hpending
          cases hpending
        · rw [hts] at hlast
          simp [hlast]
  | returned hnone => cases hcall
  | wrote hsome => cases hcall
  | lost hsome hother => cases hcall

theorem alternates_move (hu : Separated u) (hmove : Move u e v) (n : Nat)
    (s : Bytes) : (requestsAbout n s v.frames).IsChain (· ≠ ·) := by
  cases hmove with
  | @replays m t rest hopen hnext =>
      refine alternates_cons (hu.alternates n s) fun hm hts => ?_
      have hts : t = s := by simpa [Request.concerns] using hts
      have hm : m = n := hm
      rw [hu.fresh n s (hm ▸ hopen) (by simp [hnext, hts])]
      simp
  | @wrote _ f hcall =>
      refine alternates_cons (hu.alternates n s) fun hm hr => ?_
      exact hu.pending n f.2 s (by rw [hcall, ← hm]) hr
  | opens hclosed => exact hu.alternates n s
  | ends => exact hu.alternates n s
  | called hfree => exact hu.alternates n s
  | returned hcall => exact hu.alternates n s
  | lost hcall hother => exact hu.alternates n s

theorem move (hu : Separated u) (hseparate : u.isSeparate e)
    (hmove : Move u e v) : Separated v where
  orderly := hu.orderly.move hmove
  requested := hu.requested.move hu.orderly hmove
  fresh := fun _ _ hsocket hs => hu.fresh_move hseparate hmove hsocket hs
  unstranded := fun _ s => hu.unstranded_move hmove s
  pending := fun _ _ _ hcall hr => hu.pending_move hseparate hmove hcall hr
  alternates := hu.alternates_move hmove
  distinct := by
    cases hmove with
    | opens hclosed => exact hu.orderly.nodup
    | replays hopen hnext =>
        have hdistinct := hu.distinct
        rw [hnext, List.nodup_cons] at hdistinct
        exact hdistinct.2
    | ends => exact List.nodup_nil
    | _ => exact hu.distinct
  listed := by
    cases hmove with
    | opens hclosed => exact fun s hs => hs
    | replays hopen hnext =>
        exact fun s hs => hu.listed s (hnext ▸ List.mem_cons_of_mem _ hs)
    | ends => simp
    | called hfree => simp [List.isEmpty_iff.mp hseparate]
    | _ => exact hu.listed
  idle := by
    cases hmove with
    | opens hclosed => exact fun _ => Option.isNone_iff_eq_none.mp hseparate
    | replays hopen hnext => exact fun _ => hu.idle (by simp [hnext])
    | ends => simp
    | called hfree => simp [List.isEmpty_iff.mp hseparate]
    | _ => simp

end Separated

theorem alternates_of_run {configured : List Bytes} {es : List Event}
    (h : Runs.run separateStep (start configured) es = some u) (n : Nat)
    (s : Bytes) : (requestsAbout n s u.frames).IsChain (· ≠ ·) := by
  have hseparated : Separated u := by
    refine Runs.run_invariant ?_ (separated_start configured) h
    intro x e y hx hstep
    unfold separateStep at hstep
    split at hstep
    · rename_i hseparate
      exact hx.move hseparate (move_of_step hstep)
    · cases hstep
  exact hseparated.alternates n s

/-- The subscription list is an ordered set. After any calls it holds each
symbol once, those that were configured or added and not withdrawn since, in
the order of the earliest such addition. In every run it is the list of the
calls made, and a call on a connection that stays writes one frame if it
changed the list and none otherwise. When replays and calls do not overlap, no
two frames in a row about a symbol say the same. -/
theorem ordered_set (configured : List Bytes) :
    (∀ calls, Lists (Client.configuring configured ++ calls)
      ((Client.ofConfigured configured).afterCalls calls).symbols) ∧
    (∀ es u, Runs.run step (start configured) es = some u →
      u.client.symbols =
        ((Client.ofConfigured configured).afterCalls
            (es.filterMap Event.call?)).symbols ∧
      ∀ n k c arrives w, u.client.socket = some n →
        Runs.run step u (.call c ::
            (List.replicate k .replays ++ [.write arrives])) = some w →
        w.frames =
          (if w.client.symbols = u.client.symbols then []
            else (c.request?.map fun r => (n, r)).toList) ++
          ((u.replay.take k).map fun s => (n, .subscribe s)).reverse ++
            u.frames) ∧
    ∀ es u, Runs.run separateStep (start configured) es = some u →
      ∀ n s, (requestsAbout n s u.frames).IsChain (· ≠ ·) := by
  refine ⟨Client.lists_configured configured,
    fun es u hrun => ⟨symbols_of_run hrun, ?_⟩, ?_⟩
  · intro n k c arrives w hsocket hcall
    exact frames_of_call hsocket hcall
  · intro es u hrun n s
    exact alternates_of_run hrun n s

/-- A configured symbol is withdrawn and added again, after another one that is
added twice. -/
def readdition : List Event :=
  [.opens, .replays, .replays, .call (.unsubscribe [66]), .write true,
    .call (.subscribe [67]), .write true, .call (.subscribe [66]),
    .write true, .call (.subscribe [67]), .write true]

theorem ordered_set_of_readdition :
    ∃ u v w,
      Runs.run step (start [[32, 98], [65]]) (readdition.take 7) = some u ∧
      Runs.run step u [.call (.subscribe [66]), .write true] = some v ∧
      v.frames = (0, .subscribe [66]) :: u.frames ∧
      Runs.run separateStep (start [[32, 98], [65]]) readdition = some w ∧
      w.client.symbols = [[65], [67], [66]] ∧
      Lists (Client.configuring [[32, 98], [65]] ++
          readdition.filterMap Event.call?)
        w.client.symbols ∧
      requestsAbout 0 [66] w.frames =
        [.subscribe [66], .unsubscribe [66], .subscribe [66]] ∧
      (requestsAbout 0 [66] w.frames).IsChain (· ≠ ·) := by
  obtain ⟨hlists, hruns, halternates⟩ := ordered_set [[32, 98], [65]]
  have hbefore :
      (Runs.run step (start [[32, 98], [65]]) (readdition.take 7)).map (fun u =>
        (u.client.socket, u.client.symbols,
          (Runs.run step u [.call (.subscribe [66]), .write true]).map
            (·.client.symbols))) =
      some (some 0, [[65], [67]], some [[65], [67], [66]]) := by decide +kernel
  obtain ⟨u, hu, hfields⟩ := Option.map_eq_some_iff.mp hbefore
  simp only [Prod.mk.injEq] at hfields
  obtain ⟨hsocket, hold, hcall⟩ := hfields
  obtain ⟨v, hv, hnew⟩ := Option.map_eq_some_iff.mp hcall
  have hframes := (hruns _ u hu).2 0 0 (.subscribe [66]) true v hsocket hv
  have hafter :
      (Runs.run separateStep (start [[32, 98], [65]]) readdition).map (fun w =>
        (w.client.symbols, requestsAbout 0 [66] w.frames)) =
      some (((Client.ofConfigured [[32, 98], [65]]).afterCalls
          (readdition.filterMap Event.call?)).symbols,
        [.subscribe [66], .unsubscribe [66], .subscribe [66]]) := by
    decide +kernel
  obtain ⟨w, hw, hfields⟩ := Option.map_eq_some_iff.mp hafter
  simp only [Prod.mk.injEq] at hfields
  obtain ⟨hsymbols, hrequests⟩ := hfields
  refine ⟨u, v, w, hu, hv, ?_, hw, ?_, ?_, hrequests,
    halternates _ w hw 0 [66]⟩
  · rw [hframes, hold, hnew]
    rfl
  · rw [hsymbols]
    decide +kernel
  · rw [hsymbols]
    exact hlists (readdition.filterMap Event.call?)

end Uplink
end Feed
end TickRelay
