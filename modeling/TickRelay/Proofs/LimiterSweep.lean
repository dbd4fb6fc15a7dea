import TickRelay.Proofs.LimiterWindow
import Mathlib.Data.List.Dedup

/-!
# What a sweep of the limiter removes

A sweep looks at the last admission of each client only, and goes through the
clients in an order that nobody fixes. What it looks at is what earlier calls
have left: a refused call stores what it has pruned.

**Input.** Calls in the order in which they are made, with a clock that never
goes back, then a sweep.

**Algorithm.** `sweepAlong` is a sweep client by client, in any order of the
clients. `Bounded` is what every call keeps of the stored admissions; that they
are in order comes from `Tracks`.

**Results.** `sweepAlong_eq`: the order does not matter. `Bounded.handle` and
`bounded_after` carry the bounds over a call and over all calls. `isIdle_iff`
turns the last admission into all admissions, and `sweeps_exactly` is the whole
law.
-/

namespace TickRelay

namespace Limiter

/-- The limiter after some calls. -/
def after (l : Limiter) (calls : List Call) : Limiter :=
  calls.foldl (fun l c => (l.handle c).1) l

/-- A client is looked at: it goes if it is idle, and is counted then. -/
def visit (start : Instant) (st : Table (List Instant) × Nat)
    (client : Bytes) : Table (List Instant) × Nat :=
  match st.1.get? client with
  | none => st
  | some times =>
      if isIdle start times then (st.1.erase client, st.2 + 1) else st

/-- A sweep that goes through clients in some order. -/
def sweepAlong (order : List Bytes) (now : Instant) (l : Limiter) :
    Limiter × Nat :=
  let (history, removed) := order.foldl (visit (l.start now)) (l.history, 0)
  ({ l with history }, removed)

/-- The client that a call admitted from a first to a last instant, both
included. -/
def Entry.visitor? (first last : Int) (e : Entry) : Option Bytes :=
  match e.call with
  | .ask now client =>
    if e.granted ∧ first ≤ now.nanos ∧ now.nanos ≤ last then some client
    else none
  | .sweep _ => none

/-- The clients that were admitted from a first to a last instant, both
included, each once. -/
def visitors (first last : Int) (log : List Entry) : List Bytes :=
  (log.filterMap (·.visitor? first last)).dedup

variable {l : Limiter} {client : Bytes} {now : Instant} {known : List Instant}
  {calls : List Call}

section Order

variable {start : Instant} {st : Table (List Instant) × Nat}

/-- The table after a client was looked at, and what is counted then: one for
each entry that goes. -/
theorem visit_eq (start : Instant) (st : Table (List Instant) × Nat)
    (client : Bytes) :
    (visit start st client).1 =
      st.1.filter (fun k times => !(k == client && isIdle start times)) ∧
      (visit start st client).2 + (visit start st client).1.size =
        st.2 + st.1.size := by
  unfold visit
  cases hget : st.1.get? client with
  | none =>
      refine ⟨(Table.filter_eq_self_of_get? fun v hv => ?_).symm, rfl⟩
      rw [hget] at hv
      cases hv
  | some times =>
      dsimp only
      split
      · rename_i hidle
        refine ⟨Table.erase_eq_filter hget hidle, ?_⟩
        have hsize := Table.size_erase hget
        dsimp only
        omega
      · rename_i hactive
        refine ⟨(Table.filter_eq_self_of_get? fun v hv => ?_).symm, rfl⟩
        rw [hget] at hv
        cases hv
        exact Bool.eq_false_iff.mpr hactive

/-- The same after some clients were looked at. -/
theorem foldl_visit (start : Instant) (order : List Bytes)
    (st : Table (List Instant) × Nat) :
    (order.foldl (visit start) st).1 = st.1.filter
        (fun k times => !(order.contains k && isIdle start times)) ∧
      (order.foldl (visit start) st).2 +
          (order.foldl (visit start) st).1.size =
        st.2 + st.1.size := by
  induction order generalizing st with
  | nil =>
      exact ⟨(Table.entries_inj
        (List.filter_eq_self.mpr fun _ _ => by simp)).symm, rfl⟩
  | cons client order ih =>
      obtain ⟨htable, hcount⟩ := visit_eq start st client
      obtain ⟨hrest, htotal⟩ := ih (visit start st client)
      rw [List.foldl_cons]
      refine ⟨?_, htotal.trans hcount⟩
      rw [hrest, htable]
      refine Table.entries_inj
        ((List.filter_filter ..).trans (List.filter_congr fun e _ => ?_))
      show (!(order.contains e.1 && isIdle start e.2) &&
        !(e.1 == client && isIdle start e.2)) =
          !((client :: order).contains e.1 && isIdle start e.2)
      rw [List.contains_cons]
      cases isIdle start e.2 <;> cases e.1 == client <;> simp

/-- The order in which a sweep goes through the clients does not matter. -/
theorem sweepAlong_eq {order : List Bytes} (horder : order.Perm l.history.keys)
    (now : Instant) : l.sweepAlong order now = l.sweep now := by
  obtain ⟨htable, hcount⟩ := foldl_visit (l.start now) order (l.history, 0)
  have hkept : (order.foldl (visit (l.start now)) (l.history, 0)).1 =
      l.history.filter fun _ times => !isIdle (l.start now) times := by
    refine htable.trans (Table.entries_inj (List.filter_congr fun e he => ?_))
    have hlisted : e.1 ∈ order :=
      horder.mem_iff.mpr (List.mem_map.mpr ⟨e, he, rfl⟩)
    show (!(order.contains e.1 && isIdle (l.start now) e.2)) =
      !isIdle (l.start now) e.2
    rw [List.contains_iff_mem.mpr hlisted, Bool.true_and]
  have hremoved : (order.foldl (visit (l.start now)) (l.history, 0)).2 =
      l.history.size -
      (l.history.filter fun _ times => !isIdle (l.start now) times).size := by
    rw [← hkept]
    dsimp only at hcount
    omega
  unfold sweepAlong sweep
  dsimp only
  rw [hkept, hremoved]

end Order

section Bounds

/-- No stored history is empty or longer than allowed. -/
def Bounded (l : Limiter) : Prop :=
  ∀ client times, l.history.get? client = some times →
    times ≠ [] ∧ (times.length : Int) ≤ l.max.toInt

theorem bounded_fresh (window max : Int64) : (fresh window max).Bounded := by
  intro client times hget
  cases hget

theorem length_admissions_le (h : l.Bounded) (hmax : 1 ≤ l.max.toInt)
    (client : Bytes) : ((l.admissions client).length : Int) ≤ l.max.toInt := by
  unfold admissions
  cases hget : l.history.get? client with
  | none => exact Int.le_trans (by decide) hmax
  | some times => exact (h client times hget).2

theorem Bounded.ask (h : l.Bounded) (hmax : 1 ≤ l.max.toInt) (now : Instant)
    (client : Bytes) : (l.ask now client).1.Bounded := by
  have hpruned :
      ((prune (l.start now) (l.admissions client)).length : Int) ≤
        l.max.toInt :=
    Int.le_trans (Int.ofNat_le.mpr (List.length_dropWhile_le ..))
      (length_admissions_le h hmax client)
  unfold Limiter.ask
  dsimp only
  split
  · rename_i hfull
    intro c times hget
    dsimp only at hget ⊢
    rw [Table.get?_set] at hget
    split at hget
    · -- A refused client has as many admissions as allowed, and at least one
      -- is allowed.
      cases hget
      refine ⟨fun hnil => ?_, hpruned⟩
      rw [hnil, List.length_nil] at hfull
      omega
    · exact h c times hget
  · rename_i hroom
    intro c times hget
    dsimp only at hget ⊢
    rw [Table.get?_set] at hget
    split at hget
    · cases hget
      refine ⟨List.append_ne_nil_of_right_ne_nil _ (List.cons_ne_nil _ _), ?_⟩
      rw [List.length_append, List.length_singleton]
      omega
    · exact h c times hget

theorem Bounded.sweep (h : l.Bounded) (now : Instant) :
    (l.sweep now).1.Bounded := by
  intro client times hget
  have hfound :
      ((l.history.get? client).filter fun times =>
        !isIdle (l.start now) times) = some times :=
    (Table.get?_filter ..).symm.trans hget
  exact h client times (Option.filter_eq_some_iff.mp hfound).1

theorem Bounded.handle (h : l.Bounded) (hmax : 1 ≤ l.max.toInt) (c : Call) :
    (l.handle c).1.Bounded := by
  cases c with
  | ask now client => exact h.ask hmax now client
  | sweep now => exact h.sweep now

theorem bounded_after (h : l.Bounded) (hmax : 1 ≤ l.max.toInt)
    (calls : List Call) : (l.after calls).Bounded := by
  induction calls generalizing l with
  | nil => exact h
  | cons c calls ih => exact ih (h.handle hmax c) (by rwa [handle_max])

end Bounds

section Removal

theorem window_after (l : Limiter) (calls : List Call) :
    (l.after calls).window = l.window := by
  induction calls generalizing l with
  | nil => rfl
  | cons c calls ih => exact (ih _).trans (handle_window l c)

theorem max_after (l : Limiter) (calls : List Call) :
    (l.after calls).max = l.max := by
  induction calls generalizing l with
  | nil => rfl
  | cons c calls ih => exact (ih _).trans (handle_max l c)

/-- After some calls the admissions of a client are known up to those that left
the window. -/
theorem tracks_after (h : l.Tracks client known now) (horder : InOrder calls)
    (hnow : ∀ c ∈ calls, now.nanos ≤ c.time.nanos) {last : Instant}
    (hfirst : now.nanos ≤ last.nanos)
    (hlast : ∀ c ∈ calls, c.time.nanos ≤ last.nanos) :
    (l.after calls).Tracks client
        (known ++ admitted client (l.trace calls)) last := by
  induction calls generalizing l known now with
  | nil =>
      rw [trace, admitted_nil, List.append_nil]
      exact h.later hfirst
  | cons c calls ih =>
      obtain ⟨hrest, hlater⟩ := horder.tail
      have hstep := h.handle c (hnow c List.mem_cons_self)
      have hall := ih hstep hrest hlater (hlast c List.mem_cons_self)
        fun d hd => hlast d (List.mem_cons_of_mem c hd)
      rw [trace, admitted_cons, ← List.append_assoc]
      exact hall

theorem exists_end (calls : List Call) :
    ∃ last : Instant, ∀ c ∈ calls, c.time.nanos ≤ last.nanos := by
  induction calls with
  | nil => exact ⟨⟨0⟩, fun _ hc => (List.not_mem_nil hc).elim⟩
  | cons c calls ih =>
      obtain ⟨last, hlast⟩ := ih
      refine ⟨⟨Max.max c.time.nanos last.nanos⟩,
        List.forall_mem_cons.mpr ⟨Int.le_max_left .., ?_⟩⟩
      exact fun d hd => Int.le_trans (hlast d hd) (Int.le_max_right ..)

/-- The same from the start on, at any time that is not before a call. -/
theorem InOrder.tracks (horder : InOrder calls) (window max : Int64)
    (client : Bytes) {last : Instant}
    (hlast : ∀ c ∈ calls, c.time.nanos ≤ last.nanos) :
    ((fresh window max).after calls).Tracks client
        (admitted client ((fresh window max).trace calls)) last := by
  obtain ⟨first, hfirst⟩ := horder.exists_start
  let start : Instant := ⟨min first.nanos last.nanos⟩
  have hstart : ∀ c ∈ calls, start.nanos ≤ c.time.nanos :=
    fun c hc => Int.le_trans (Int.min_le_left ..) (hfirst c hc)
  exact tracks_after (tracks_fresh window max client start) horder hstart
    (Int.min_le_right ..) hlast

theorem Tracks.sorted_admissions (h : l.Tracks client known now) :
    (l.admissions client).Pairwise fun a b => a.nanos ≤ b.nanos := by
  obtain ⟨old, hsplit, -⟩ := h.forgotten
  have hsorted := h.sorted
  rw [hsplit] at hsorted
  exact (List.pairwise_append.mp hsorted).2.1

/-- The last admission that is known tells whether there is any in the
window. -/
theorem Tracks.isIdle_iff (h : l.Tracks client known now)
    (hwindow : 0 < l.window) :
    isIdle (l.start now) (l.admissions client) = true ↔
      between (now.nanos - l.window.toInt) now.nanos known = [] := by
  have hstored := h.sorted_admissions
  rw [← h.prune_eq hwindow, prune_eq_filter _ hstored]
  constructor
  · intro hidle
    refine List.filter_eq_nil_iff.mpr fun t ht => ?_
    rw [before_of_isIdle hstored hidle t ht]
    exact Bool.false_ne_true
  · intro hnone
    unfold isIdle
    split
    · rfl
    · rename_i t hlast
      have ht := List.filter_eq_nil_iff.mp hnone t (List.mem_of_getLast? hlast)
      simpa using ht

theorem nodup_visitors {first last : Int} {log : List Entry} :
    (visitors first last log).Nodup :=
  List.nodup_dedup _

theorem mem_visitors {first last : Int} {log : List Entry} :
    client ∈ visitors first last log ↔
      between first last (admitted client log) ≠ [] := by
  rw [visitors, List.mem_dedup, List.mem_filterMap, between, Ne,
    List.filter_eq_nil_iff]
  constructor
  · rintro ⟨⟨c, granted⟩, he, hclient⟩ hnone
    cases c with
    | sweep t => cases hclient
    | ask t c =>
        simp only [Entry.visitor?] at hclient
        split at hclient
        · rename_i hin
          cases hclient
          refine hnone t (List.mem_filterMap.mpr ⟨_, he, ?_⟩)
            (decide_eq_true hin.2)
          simp [Entry.admission?, hin.1]
        · cases hclient
  · intro hsome
    push Not at hsome
    obtain ⟨t, ht, hin⟩ := hsome
    obtain ⟨⟨c, granted⟩, he, hadmission⟩ := List.mem_filterMap.mp ht
    obtain ⟨rfl, rfl⟩ := ask_of_admission hadmission
    exact ⟨_, he, if_pos ⟨rfl, of_decide_eq_true hin⟩⟩

/-- A sweep forgets a client without an admission in the window, and leaves any
other as it is. -/
theorem Tracks.get?_sweep (h : l.Tracks client known now)
    (hwindow : 0 < l.window) :
    (l.sweep now).1.history.get? client =
      if between (now.nanos - l.window.toInt) now.nanos known = [] then none
      else l.history.get? client := by
  have hidle := h.isIdle_iff hwindow
  have hfilter :
      (l.sweep now).1.history.get? client =
        (l.history.get? client).filter fun times =>
          !isIdle (l.start now) times :=
    Table.get?_filter ..
  rw [hfilter]
  cases hget : l.history.get? client with
  | none => exact (ite_self _).symm
  | some times =>
      rw [admissions, hget, Option.getD_some] at hidle
      split
      · rename_i hnone
        simp [Option.filter, hidle.mpr hnone]
      · rename_i hsome
        simp [Option.filter, Bool.eq_false_iff.mpr (mt hidle.mp hsome)]

/-- A client with an admission in the window is stored. -/
theorem Tracks.exists_stored (h : l.Tracks client known now)
    (hwindow : 0 < l.window)
    (hsome : between (now.nanos - l.window.toInt) now.nanos known ≠ []) :
    ∃ times, l.history.get? client = some times := by
  cases hget : l.history.get? client with
  | some times => exact ⟨times, rfl⟩
  | none =>
      refine absurd ((h.isIdle_iff hwindow).mp ?_) hsome
      rw [admissions, hget]
      rfl

/-- A sweep counts the stored clients that are idle. -/
theorem sweep_removed (l : Limiter) (now : Instant) :
    (l.sweep now).2 = l.history.keys.countP fun client =>
      isIdle (l.start now) (l.admissions client) := by
  have hkeys :
      (l.history.keys.countP fun client =>
        isIdle (l.start now) (l.admissions client)) =
      l.history.entries.countP fun e => isIdle (l.start now) e.2 := by
    rw [Table.keys, List.countP_map]
    refine List.countP_congr fun e he => ?_
    have hget := (Table.mem_entries_iff l.history e.1 e.2).mp he
    rw [Function.comp_apply, admissions, hget, Option.getD_some]
  have htotal :=
    List.length_eq_countP_add_countP (fun e => isIdle (l.start now) e.2)
      (l := l.history.entries)
  have hkept :
      (l.history.filter fun _ times => !isIdle (l.start now) times).size =
        l.history.entries.countP fun e => ¬ isIdle (l.start now) e.2 := by
    rw [Table.size, Table.filter, List.countP_eq_length_filter]
    simp
  rw [hkeys]
  unfold sweep
  dsimp only
  rw [hkept, Table.size]
  omega

/-- **A sweep removes exactly the idle clients, and memory stays bounded.**
Whatever calls are made, no stored history is empty, out of order or longer
than allowed. A sweep, in whatever order it goes through the clients, forgets
exactly the stored clients without an admission in the window that ends with
it, both ends included, leaves the others as they are, and counts those it
forgets. So as many clients are left as were admitted in that window. -/
theorem sweeps_exactly {window max : Int64} (hwindow : 0 < window)
    (hmax : 1 ≤ max) (horder : InOrder calls) :
    (∀ client times,
        ((fresh window max).after calls).history.get? client = some times →
      times ≠ [] ∧ times.Pairwise (fun a b => a.nanos ≤ b.nanos) ∧
        (times.length : Int) ≤ max.toInt) ∧
    ∀ now : Instant, (∀ c ∈ calls, c.time.nanos ≤ now.nanos) →
    ∀ order, order.Perm ((fresh window max).after calls).history.keys →
      ((fresh window max).after calls).sweepAlong order now =
          ((fresh window max).after calls).sweep now ∧
        (∀ client,
          (((fresh window max).after calls).sweepAlong order
              now).1.history.get? client =
            if between (now.nanos - window.toInt) now.nanos
                (admitted client ((fresh window max).trace calls)) = []
            then none
            else ((fresh window max).after calls).history.get? client) ∧
        (((fresh window max).after calls).sweepAlong order now).2 =
          ((fresh window max).after calls).history.keys.countP (fun client =>
            between (now.nanos - window.toInt) now.nanos
              (admitted client ((fresh window max).trace calls)) = []) ∧
        (((fresh window max).after calls).sweepAlong order now).1.clients =
          (visitors (now.nanos - window.toInt) now.nanos
              ((fresh window max).trace calls)).length := by
  have hroom : 1 ≤ max.toInt := Int64.le_iff_toInt_le.mp hmax
  have hbounded := bounded_after (bounded_fresh window max) hroom calls
  have hpositive : 0 < ((fresh window max).after calls).window := by
    rwa [window_after]
  constructor
  · intro client times hget
    obtain ⟨last, hlast⟩ := exists_end calls
    have hstored := (horder.tracks window max client hlast).sorted_admissions
    rw [admissions, hget, Option.getD_some] at hstored
    obtain ⟨hsome, hlength⟩ := hbounded client times hget
    rw [max_after] at hlength
    exact ⟨hsome, hstored, hlength⟩
  · intro now hlast order hperm
    have htracks (client : Bytes) := horder.tracks window max client hlast
    rw [sweepAlong_eq hperm]
    refine ⟨rfl, fun client => ?_, ?_, ?_⟩
    · have hswept := (htracks client).get?_sweep hpositive
      rwa [window_after] at hswept
    · rw [sweep_removed]
      refine List.countP_congr fun client _ => ?_
      have hidle := (htracks client).isIdle_iff hpositive
      rw [window_after] at hidle
      rw [hidle, decide_eq_true_iff]
      rfl
    · have hnodup :
          (((fresh window max).after calls).sweep now).1.history.keys.Nodup :=
        Table.distinct _
      have hkeys :
          (((fresh window max).after calls).sweep now).1.history.keys.Perm
            (visitors (now.nanos - window.toInt) now.nanos
              ((fresh window max).trace calls)) := by
        refine (List.perm_ext_iff_of_nodup hnodup nodup_visitors).mpr
          fun client => ?_
        rw [Table.mem_keys, mem_visitors,
          (htracks client).get?_sweep hpositive, window_after]
        constructor
        · rintro ⟨times, hkept⟩ hnone
          rw [window_fresh, if_pos hnone] at hkept
          cases hkept
        · intro hsome
          rw [window_fresh, if_neg hsome]
          exact (htracks client).exists_stored hpositive
            (by rwa [window_after])
      rw [← hkeys.length_eq, clients, Table.size, Table.keys, List.length_map]

/-- Three clients ask, the first of them twice: its second call is refused. -/
def threeClients : List Call :=
  [.ask ⟨0⟩ [97], .ask ⟨5⟩ [97], .ask ⟨11⟩ [98], .ask ⟨12⟩ [99]]

/-- A sweep when the admission of the second client is at the very start of the
window: it goes through the clients in another order than that of the table,
and forgets the first one only. -/
theorem sweeps_exactly_threeClients :
    (0 : Int64) < 10 ∧ (1 : Int64) ≤ 1 ∧ InOrder threeClients ∧
      (∀ c ∈ threeClients, c.time.nanos ≤ 21) ∧
      [[98], [97], [99]].Perm ((fresh 10 1).after threeClients).history.keys ∧
      ((fresh 10 1).after threeClients).history.get? [97] = some [⟨0⟩] ∧
      (((fresh 10 1).after threeClients).sweepAlong [[98], [97], [99]]
          ⟨21⟩).1.history.get? [97] = none ∧
      (((fresh 10 1).after threeClients).sweepAlong
          [[98], [97], [99]] ⟨21⟩).2 = 1 ∧
      (((fresh 10 1).after threeClients).sweepAlong [[98], [97], [99]]
          ⟨21⟩).1.clients = 2 := by
  have hwindow : (0 : Int64) < 10 := by decide
  have hmax : (1 : Int64) ≤ 1 := by decide
  have horder : InOrder threeClients := by
    unfold InOrder
    decide
  have hlast : ∀ c ∈ threeClients, c.time.nanos ≤ 21 := by decide
  have hperm :
      [[98], [97], [99]].Perm
        ((fresh 10 1).after threeClients).history.keys := by decide
  obtain ⟨-, hsweep⟩ := sweeps_exactly hwindow hmax horder
  obtain ⟨-, hkept, hremoved, hclients⟩ := hsweep ⟨21⟩ hlast _ hperm
  refine ⟨hwindow, hmax, horder, hlast, hperm, by decide, ?_, ?_, ?_⟩
  · rw [hkept]
    decide
  · rw [hremoved]
    decide
  · rw [hclients]
    decide

end Removal

end Limiter
end TickRelay
