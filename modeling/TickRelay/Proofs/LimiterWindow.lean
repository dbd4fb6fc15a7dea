import TickRelay.Limiter
import TickRelay.Proofs.TableView
import TickRelay.Proofs.TimeOrder
import Mathlib.Data.List.TakeWhile

/-!
# The limiter and its window

A client is to be admitted when fewer than a given number of its admissions lie
in the window that ends now, both ends included. The limiter does not look at
all admissions: it forgets those that left the window, and a sweep forgets
whole clients.

**Input.** Calls in the order in which they are made, with a clock that never
goes back.

**Algorithm.** `trace` is the record of the calls with their outcomes. `Tracks`
says how the limiter knows the admissions of a client: what it has forgotten
left the window, now and for good.

**Results.** `ask_granted_iff` and `tracks_handle` say what one call answers
and what it leaves. `granted_iff_room` carries this along a record, and
`decides_by_window` is the whole law.
-/

namespace TickRelay

namespace Limiter

/-- A call of the limiter, with the clock. -/
inductive Call where
  | ask (now : Instant) (client : Bytes)
  | sweep (now : Instant)
  deriving DecidableEq

/-- The clock of a call. -/
def Call.time : Call → Instant
  | ask now _ | sweep now => now

/-- A call and whether it admitted a client. -/
structure Entry where
  call : Call
  granted : Bool
  deriving DecidableEq

namespace Entry

/-- The admission of a client. -/
def admission? (client : Bytes) (e : Entry) : Option Instant :=
  match e.call with
  | .ask now c => if c = client ∧ e.granted then some now else none
  | .sweep _ => none

/-- Whether a client asked. -/
def isOf (client : Bytes) (e : Entry) : Bool :=
  match e.call with
  | .ask _ c => c = client
  | .sweep _ => false

end Entry

/-- A limiter without admissions. -/
def fresh (window max : Int64) : Limiter := { window, max }

@[simp] theorem window_fresh (window max : Int64) :
    (fresh window max).window = window := rfl

@[simp] theorem max_fresh (window max : Int64) :
    (fresh window max).max = max := rfl

/-- One call: the limiter afterwards, and whether a client was admitted. -/
def handle (l : Limiter) : Call → Limiter × Bool
  | .ask now client => l.ask now client
  | .sweep now => ((l.sweep now).1, false)

/-- The record of some calls. -/
def trace (l : Limiter) : List Call → List Entry
  | [] => []
  | c :: cs => ⟨c, (l.handle c).2⟩ :: (l.handle c).1.trace cs

/-- The admissions of a client in a record. -/
def admitted (client : Bytes) (log : List Entry) : List Instant :=
  log.filterMap (·.admission? client)

/-- The instants from a first to a last one, both included. -/
def between (first last : Int) (times : List Instant) : List Instant :=
  times.filter fun t => first ≤ t.nanos ∧ t.nanos ≤ last

/-- No call is made before an earlier one. -/
def InOrder (calls : List Call) : Prop :=
  calls.Pairwise fun a b => a.time.nanos ≤ b.time.nanos

variable {l : Limiter} {client : Bytes} {now now' : Instant}
  {known : List Instant}

section Window

theorem handle_window (l : Limiter) (c : Call) :
    (l.handle c).1.window = l.window := by
  cases c with
  | ask now client =>
      simp only [handle, ask]
      split
      · rfl
      · rfl
  | sweep now => rfl

theorem handle_max (l : Limiter) (c : Call) : (l.handle c).1.max = l.max := by
  cases c with
  | ask now client =>
      simp only [handle, ask]
      split
      · rfl
      · rfl
  | sweep now => rfl

theorem handle_start (l : Limiter) (c : Call) (now : Instant) :
    (l.handle c).1.start now = l.start now := by
  rw [start, start, handle_window]

/-- A window of positive length starts where it should: its length has a
negative. -/
theorem start_nanos (h : 0 < l.window) (now : Instant) :
    (l.start now).nanos = now.nanos - l.window.toInt :=
  now.nanos_shift_neg h

end Window

section Tracking

/-- How a limiter knows the admissions of a client at a time when all of them
are past: it has forgotten only such as left the window. -/
structure Tracks (l : Limiter) (client : Bytes) (known : List Instant)
    (now : Instant) : Prop where
  sorted : known.Pairwise fun a b => a.nanos ≤ b.nanos
  past : ∀ t ∈ known, t.nanos ≤ now.nanos
  forgotten : ∃ old, known = old ++ l.admissions client ∧
    ∀ t ∈ old, t.before (l.start now) = true

theorem tracks_fresh (window max : Int64) (client : Bytes) (now : Instant) :
    (fresh window max).Tracks client [] now :=
  ⟨List.Pairwise.nil, fun _ ht => (List.not_mem_nil ht).elim, [], rfl,
    fun _ ht => (List.not_mem_nil ht).elim⟩

/-- What is before the window stays before it. -/
theorem before_start_mono (h : now.nanos ≤ now'.nanos) {t : Instant}
    (ht : t.before (l.start now) = true) : t.before (l.start now') = true := by
  have hlt : t.nanos < now.nanos + (-l.window).toInt :=
    Instant.before_iff.mp ht
  have hlt' : t.nanos < now'.nanos + (-l.window).toInt := by omega
  exact Instant.before_iff.mpr hlt'

theorem Tracks.later (h : l.Tracks client known now)
    (hnow : now.nanos ≤ now'.nanos) : l.Tracks client known now' := by
  obtain ⟨old, hsplit, hold⟩ := h.forgotten
  exact ⟨h.sorted, fun t ht => Int.le_trans (h.past t ht) hnow, old, hsplit,
    fun t ht => before_start_mono hnow (hold t ht)⟩

/-- Of times in order, those before a start come first. -/
theorem prune_eq_filter (start : Instant) {times : List Instant}
    (h : times.Pairwise fun a b => a.nanos ≤ b.nanos) :
    prune start times = times.filter fun t => !t.before start :=
  Instant.dropWhile_before id start h

/-- What is left after pruning are the admissions in the window. -/
theorem Tracks.prune_eq (h : l.Tracks client known now)
    (hwindow : 0 < l.window) :
    prune (l.start now) (l.admissions client) =
      between (now.nanos - l.window.toInt) now.nanos known := by
  obtain ⟨old, hsplit, hold⟩ := h.forgotten
  have hsorted := h.sorted
  rw [hsplit] at hsorted
  have hnone : between (now.nanos - l.window.toInt) now.nanos old = [] := by
    refine List.filter_eq_nil_iff.mpr fun t ht => ?_
    have hb := Instant.before_iff.mp (hold t ht)
    rw [start_nanos hwindow] at hb
    rw [decide_eq_true_eq]
    omega
  rw [prune_eq_filter _ (List.pairwise_append.mp hsorted).2.1, hsplit, between,
    List.filter_append]
  rw [between] at hnone
  rw [hnone, List.nil_append]
  refine List.filter_congr fun t ht => ?_
  have hpast := h.past t (by rw [hsplit]; exact List.mem_append_right old ht)
  apply Bool.eq_iff_iff.mpr
  rw [Bool.not_eq_true', ← Bool.not_eq_true, Instant.before_iff,
    start_nanos hwindow, decide_eq_true_eq]
  omega

theorem granted_iff_prune (l : Limiter) (now : Instant) (client : Bytes) :
    (l.ask now client).2 = true ↔
      ((prune (l.start now) (l.admissions client)).length : Int) <
        l.max.toInt := by
  unfold ask
  dsimp only
  split
  case isTrue hfull => simp [Int.not_lt.mpr hfull]
  case isFalse hroom => simp [Int.not_le.mp hroom]

/-- A client is admitted exactly if its window has room. -/
theorem Tracks.ask_granted_iff (h : l.Tracks client known now)
    (hwindow : 0 < l.window) :
    (l.ask now client).2 = true ↔
      ((between (now.nanos - l.window.toInt) now.nanos known).length : Int) <
        l.max.toInt := by
  rw [granted_iff_prune, h.prune_eq hwindow]

theorem admissions_set (l : Limiter) (c : Bytes) (times : List Instant)
    (client : Bytes) :
    ({ l with history := l.history.set c times } : Limiter).admissions client =
      if client = c then times else l.admissions client := by
  rw [admissions, Table.get?_set]
  split
  · rfl
  · rfl

/-- What a client that asks is known by afterwards. -/
theorem admissions_ask (l : Limiter) (now : Instant) (c client : Bytes) :
    (l.ask now c).1.admissions client =
      if client = c then prune (l.start now) (l.admissions c) ++
      (if (l.ask now c).2 then [now] else []) else l.admissions client := by
  unfold ask
  dsimp only
  split
  · rw [admissions_set]
    simp
  · rw [admissions_set]
    simp

theorem admissions_sweep (l : Limiter) (now : Instant) (client : Bytes) :
    (l.sweep now).1.admissions client =
      if isIdle (l.start now) (l.admissions client) then []
      else l.admissions client := by
  unfold sweep admissions
  dsimp only
  rw [Table.get?_filter]
  cases l.history.get? client with
  | none => simp
  | some times =>
      cases hidle : isIdle (l.start now) times with
      | true => simp [Option.filter, hidle]
      | false => simp [Option.filter, hidle]

/-- Of an idle client nothing is in the window. -/
theorem before_of_isIdle {start : Instant} {times : List Instant}
    (h : times.Pairwise fun a b => a.nanos ≤ b.nanos)
    (hidle : isIdle start times = true) :
    ∀ t ∈ times, t.before start = true := by
  intro t ht
  unfold isIdle at hidle
  split at hidle
  · rename_i hlast
    rw [List.getLast?_eq_none_iff.mp hlast] at ht
    cases ht
  · rename_i last hlast
    obtain ⟨rest, rfl⟩ := List.getLast?_eq_some_iff.mp hlast
    have hle : t.nanos ≤ last.nanos := by
      rcases List.mem_append.mp ht with hrest | heq
      · exact (List.pairwise_append.mp h).2.2 t hrest last
          (List.mem_singleton.mpr rfl)
      · exact Int.le_of_eq (congrArg Instant.nanos (List.mem_singleton.mp heq))
    have hlt := Instant.before_iff.mp hidle
    exact Instant.before_iff.mpr (Int.lt_of_le_of_lt hle hlt)

theorem Tracks.sweep (h : l.Tracks client known now) :
    (l.sweep now).1.Tracks client known now := by
  obtain ⟨old, hsplit, hold⟩ := h.forgotten
  refine ⟨h.sorted, h.past, ?_⟩
  rw [admissions_sweep]
  split
  · rename_i hidle
    refine ⟨known, (List.append_nil known).symm, fun t ht => ?_⟩
    have hsorted := h.sorted
    rw [hsplit] at ht hsorted
    rcases List.mem_append.mp ht with hleft | hkept
    · exact hold t hleft
    · exact before_of_isIdle
        (List.pairwise_append.mp hsorted).2.1 hidle t hkept
  · exact ⟨old, hsplit, hold⟩

theorem Tracks.ask (h : l.Tracks client known now) :
    (l.ask now client).1.Tracks client
        (known ++ if (l.ask now client).2 then [now] else []) now := by
  obtain ⟨old, hsplit, hold⟩ := h.forgotten
  have hnew : ∀ t ∈ (if (l.ask now client).2 then [now] else []), t = now := by
    intro t ht
    split at ht
    · exact List.mem_singleton.mp ht
    · cases ht
  refine ⟨?_, ?_, ?_⟩
  · refine List.pairwise_append.mpr ⟨h.sorted, ?_, fun a ha b hb => ?_⟩
    · split
      · exact List.pairwise_singleton _ _
      · exact List.Pairwise.nil
    · rw [hnew b hb]
      exact h.past a ha
  · intro t ht
    rcases List.mem_append.mp ht with hknown | hask
    · exact h.past t hknown
    · exact Int.le_of_eq (congrArg Instant.nanos (hnew t hask))
  · have hstart : (l.ask now client).1.start now = l.start now :=
      handle_start l (.ask now client) now
    refine ⟨old ++ (l.admissions client).takeWhile (·.before (l.start now)),
      ?_, fun t ht => ?_⟩
    · rw [admissions_ask, if_pos rfl, prune, ← List.append_assoc,
        List.append_assoc old, List.takeWhile_append_dropWhile, ← hsplit]
    · rw [hstart]
      rcases List.mem_append.mp ht with hleft | hpruned
      · exact hold t hleft
      · exact List.mem_takeWhile_imp
          (p := fun u : Instant => u.before (l.start now)) hpruned

/-- A call keeps the admissions of every client known, together with the one it
makes. -/
theorem Tracks.handle (h : l.Tracks client known now) (c : Call)
    (hnow : now.nanos ≤ c.time.nanos) :
    (l.handle c).1.Tracks client
        (known ++ (Entry.admission? client ⟨c, (l.handle c).2⟩).toList)
        c.time := by
  cases c with
  | sweep t =>
      have hlater : l.Tracks client known t := h.later hnow
      simpa [Limiter.handle, Call.time, Entry.admission?] using hlater.sweep
  | ask t c =>
      have hlater : l.Tracks client known t := h.later hnow
      by_cases hc : c = client
      · subst hc
        have hask := hlater.ask
        cases hgranted : (l.ask t c).2 with
        | true =>
            simpa [Limiter.handle, Call.time, Entry.admission?, hgranted]
              using hask
        | false =>
            simpa [Limiter.handle, Call.time, Entry.admission?, hgranted]
              using hask
      · have hadmissions :
            (l.ask t c).1.admissions client = l.admissions client := by
          rw [admissions_ask, if_neg (Ne.symm hc)]
        have hstart : (l.ask t c).1.start t = l.start t :=
          handle_start l (.ask t c) t
        have hnone :
            (Entry.admission? client
              ⟨.ask t c, (l.handle (.ask t c)).2⟩).toList = [] := by
          simp [Entry.admission?, hc]
        rw [hnone, List.append_nil]
        refine ⟨hlater.sorted, hlater.past, ?_⟩
        show ∃ old, known = old ++ (l.ask t c).1.admissions client ∧
          ∀ u ∈ old, u.before ((l.ask t c).1.start t) = true
        rw [hadmissions, hstart]
        exact hlater.forgotten

end Tracking

section Record

variable {calls : List Call} {log rest kept : List Entry}

@[simp] theorem admitted_nil (client : Bytes) : admitted client [] = [] := rfl

theorem admitted_cons (client : Bytes) (e : Entry) (log : List Entry) :
    admitted client (e :: log) =
      (e.admission? client).toList ++ admitted client log := by
  unfold admitted
  cases h : e.admission? client with
  | none => rw [List.filterMap_cons_none h]; rfl
  | some t => rw [List.filterMap_cons_some h]; rfl

/-- An admission is a call of the client that was granted. -/
theorem ask_of_admission {c : Call} {granted : Bool} {t : Instant}
    (h : Entry.admission? client ⟨c, granted⟩ = some t) :
    c = .ask t client ∧ granted = true := by
  cases c with
  | sweep now => cases h
  | ask now c =>
      simp only [Entry.admission?] at h
      split at h
      · rename_i hc
        cases h
        exact ⟨by rw [hc.1], hc.2⟩
      · cases h

/-- The calls after the first one are not before it. -/
theorem InOrder.tail {c : Call} (h : InOrder (c :: calls)) :
    InOrder calls ∧ ∀ d ∈ calls, c.time.nanos ≤ d.time.nanos := by
  obtain ⟨hfirst, hrest⟩ := List.pairwise_cons.mp h
  exact ⟨hrest, hfirst⟩

/-- Along a record a client is admitted exactly when its window has room. -/
theorem granted_iff_room {t : Instant} {granted : Bool}
    (h : l.Tracks client known now) (hwindow : 0 < l.window)
    (horder : InOrder calls) (hnow : ∀ c ∈ calls, now.nanos ≤ c.time.nanos)
    (htrace : l.trace calls = log ++ ⟨.ask t client, granted⟩ :: rest) :
    granted = true ↔
      ((between (t.nanos - l.window.toInt) t.nanos
        (known ++ admitted client log)).length : Int) < l.max.toInt := by
  induction log generalizing l known now calls with
  | nil =>
      cases calls with
      | nil => cases htrace
      | cons c calls =>
          obtain ⟨hentry, -⟩ := List.cons.inj htrace
          obtain ⟨rfl, rfl⟩ := Entry.mk.inj hentry
          rw [admitted_nil, List.append_nil]
          exact (h.later (hnow _ List.mem_cons_self)).ask_granted_iff hwindow
  | cons e log ih =>
      cases calls with
      | nil => cases htrace
      | cons c calls =>
          obtain ⟨rfl, htail⟩ := List.cons.inj htrace
          obtain ⟨hrest, hlater⟩ := horder.tail
          have hstep := h.handle c (hnow c List.mem_cons_self)
          have hih := ih hstep (by rwa [handle_window]) hrest hlater htail
          rw [handle_window, handle_max, List.append_assoc,
            ← admitted_cons] at hih
          exact hih

/-- An admission finds room in every window that it falls into, since what such
a window already holds is not older than the window that ends with the
admission. -/
theorem Tracks.between_concat_le (h : l.Tracks client known now)
    (hwindow : 0 < l.window) (hgranted : (l.ask now client).2 = true)
    {first : Int}
    (hknown : ((between first (first + l.window.toInt) known).length : Int) ≤
      l.max.toInt) :
    ((between first (first + l.window.toInt) (known ++ [now])).length : Int) ≤
      l.max.toInt := by
  have hroom := (h.ask_granted_iff hwindow).mp hgranted
  unfold between at hknown hroom ⊢
  rw [List.filter_append, List.length_append]
  by_cases hin : first ≤ now.nanos ∧ now.nanos ≤ first + l.window.toInt
  · have hfewer :
        (known.filter fun t => first ≤ t.nanos ∧
          t.nanos ≤ first + l.window.toInt).length ≤
        (known.filter fun t => now.nanos - l.window.toInt ≤ t.nanos ∧
          t.nanos ≤ now.nanos).length := by
      rw [← List.countP_eq_length_filter, ← List.countP_eq_length_filter]
      refine List.countP_mono_left fun t ht htin => ?_
      have hpast := h.past t ht
      rw [decide_eq_true_eq] at htin ⊢
      omega
    have hone :=
      List.length_filter_le (fun t : Instant => first ≤ t.nanos ∧
        t.nanos ≤ first + l.window.toInt) [now]
    rw [List.length_singleton] at hone
    omega
  · have hnone :
        [now].filter (fun t => first ≤ t.nanos ∧
          t.nanos ≤ first + l.window.toInt) = [] := by
      rw [List.filter_eq_nil_iff]
      intro t ht
      rwa [List.mem_singleton.mp ht, decide_eq_true_eq]
    rw [hnone, List.length_nil]
    omega

/-- No window ever held more admissions than allowed, and so it stays. -/
theorem between_admitted_le (h : l.Tracks client known now)
    (hwindow : 0 < l.window) (horder : InOrder calls)
    (hnow : ∀ c ∈ calls, now.nanos ≤ c.time.nanos) {first : Int}
    (hknown : ((between first (first + l.window.toInt) known).length : Int) ≤
      l.max.toInt) :
    ((between first (first + l.window.toInt)
        (known ++ admitted client (l.trace calls))).length : Int) ≤
      l.max.toInt := by
  induction calls generalizing l known now with
  | nil => simpa [trace] using hknown
  | cons c calls ih =>
      obtain ⟨hrest, hlater⟩ := horder.tail
      have hstep := h.handle c (hnow c List.mem_cons_self)
      have hmore :
          ((between first (first + l.window.toInt) (known ++
            (Entry.admission? client ⟨c, (l.handle c).2⟩).toList)).length :
            Int) ≤ l.max.toInt := by
        cases hadmission : Entry.admission? client ⟨c, (l.handle c).2⟩ with
        | none => simpa using hknown
        | some t =>
            obtain ⟨rfl, hgranted⟩ := ask_of_admission hadmission
            exact (h.later (hnow _ List.mem_cons_self)).between_concat_le
              hwindow hgranted hknown
      have hih := ih hstep (by rwa [handle_window]) hrest hlater
        (by rwa [handle_window, handle_max])
      rw [handle_window, handle_max, List.append_assoc] at hih
      rw [trace, admitted_cons]
      exact hih

/-- Limiters that know the same admissions of a client decide alike on it. -/
theorem ask_congr {m : Limiter} (h : l.Tracks client known now)
    (hm : m.Tracks client known now) (hwindow : m.window = l.window)
    (hmax : m.max = l.max) (hpositive : 0 < l.window) :
    (m.ask now client).2 = (l.ask now client).2 := by
  apply Bool.eq_iff_iff.mpr
  rw [h.ask_granted_iff hpositive, hm.ask_granted_iff (hwindow ▸ hpositive),
    hwindow, hmax]

/-- So a call leaves them with the same admissions, and it is recorded alike if
it is a call of that client. -/
theorem entry_congr {m : Limiter} (h : l.Tracks client known now)
    (hm : m.Tracks client known now) (hwindow : m.window = l.window)
    (hmax : m.max = l.max) (hpositive : 0 < l.window) (c : Call)
    (hc : now.nanos ≤ c.time.nanos) :
    Entry.admission? client ⟨c, (m.handle c).2⟩ =
      Entry.admission? client ⟨c, (l.handle c).2⟩ ∧
      [Entry.mk c (m.handle c).2].filter (·.isOf client) =
        [Entry.mk c (l.handle c).2].filter (·.isOf client) := by
  cases c with
  | sweep t => exact ⟨rfl, rfl⟩
  | ask t d =>
      by_cases hd : d = client
      · subst hd
        have hsame : (m.handle (.ask t d)).2 = (l.handle (.ask t d)).2 :=
          ask_congr (h.later hc) (hm.later hc) hwindow hmax hpositive
        rw [hsame]
        exact ⟨rfl, rfl⟩
      · exact ⟨by simp [Entry.admission?, hd], by simp [Entry.isOf, hd]⟩

/-- Two limiters that know the same admissions of a client decide its calls
alike, even if one of them is spared calls that admit nobody or somebody
else. -/
theorem decisions_eq {m : Limiter} (h : l.Tracks client known now)
    (hm : m.Tracks client known now) (hwindow : m.window = l.window)
    (hmax : m.max = l.max) (hpositive : 0 < l.window) (horder : InOrder calls)
    (hnow : ∀ c ∈ calls, now.nanos ≤ c.time.nanos)
    (hkept : kept.Sublist (l.trace calls))
    (hadmitted : admitted client kept = admitted client (l.trace calls)) :
    (m.trace (kept.map (·.call))).filter (·.isOf client) =
      kept.filter (·.isOf client) := by
  induction calls generalizing l m known now kept with
  | nil =>
      rw [List.sublist_nil.mp hkept]
      rfl
  | cons c calls ih =>
      obtain ⟨hrest, hlater⟩ := horder.tail
      have hc := hnow c List.mem_cons_self
      have hstep := h.handle c hc
      rw [trace] at hkept hadmitted
      rw [admitted_cons] at hadmitted
      rcases List.sublist_cons_iff.mp hkept with hskip | ⟨later, rfl, htake⟩
      · -- A call that is left out admits nobody here, or its admission would
        -- be missing.
        have hfewer := (hskip.filterMap (·.admission? client)).length_le
        have hlength := congrArg List.length hadmitted
        rw [List.length_append] at hlength
        have hnone :
            (Entry.admission? client ⟨c, (l.handle c).2⟩).toList = [] := by
          refine List.length_eq_zero_iff.mp ?_
          unfold admitted at hlength
          omega
        rw [hnone, List.append_nil] at hstep
        rw [hnone, List.nil_append] at hadmitted
        exact ih hstep (hm.later hc) (by rw [handle_window, hwindow])
          (by rw [handle_max, hmax]) (by rwa [handle_window]) hrest
          hlater hskip hadmitted
      · obtain ⟨hsame, hentry⟩ := entry_congr h hm hwindow hmax hpositive c hc
        rw [admitted_cons] at hadmitted
        have hmstep := hm.handle c hc
        rw [hsame] at hmstep
        have hih :=
          ih hstep hmstep (by rw [handle_window, handle_window, hwindow])
            (by rw [handle_max, handle_max, hmax]) (by rwa [handle_window])
            hrest hlater htake (List.append_cancel_left hadmitted)
        calc (m.trace (c :: later.map (·.call))).filter (·.isOf client)
            = [Entry.mk c (m.handle c).2].filter (·.isOf client) ++
                ((m.handle c).1.trace (later.map (·.call))).filter
                  (·.isOf client) :=
              List.filter_append [_] _
          _ = [Entry.mk c (l.handle c).2].filter (·.isOf client) ++
              later.filter (·.isOf client) := by
              rw [hentry, hih]
          _ = (⟨c, (l.handle c).2⟩ :: later).filter (·.isOf client) :=
            (List.filter_append [_] _).symm

/-- Every call is recorded. -/
theorem calls_of_trace (l : Limiter) (calls : List Call) :
    (l.trace calls).map (·.call) = calls := by
  induction calls generalizing l with
  | nil => rfl
  | cons c calls ih =>
      rw [trace, List.map_cons, ih]

/-- A clock that never goes back was never before its first time. -/
theorem InOrder.exists_start (h : InOrder calls) :
    ∃ now : Instant, ∀ c ∈ calls, now.nanos ≤ c.time.nanos := by
  cases calls with
  | nil => exact ⟨⟨0⟩, fun _ hc => (List.not_mem_nil hc).elim⟩
  | cons c calls =>
      refine ⟨c.time, fun d hd => ?_⟩
      rcases List.mem_cons.mp hd with rfl | hlater
      · exact Int.le_refl _
      · exact h.tail.2 d hlater

/-- **The limiter decides by its window.** Whatever calls are made, a client is
admitted exactly if fewer than the allowed number of its earlier admissions lie
in the window that ends with the call. So no window holds more admissions of a
client than allowed. And if any calls are left out, though none that admitted
the client, its other calls are decided as before. -/
theorem decides_by_window {window max : Int64} (hwindow : 0 < window)
    (hmax : 1 ≤ max) (horder : InOrder calls) (client : Bytes) :
    ((fresh window max).trace calls).map (·.call) = calls ∧
    (∀ log t granted rest,
      (fresh window max).trace calls =
        log ++ ⟨.ask t client, granted⟩ :: rest →
      (granted = true ↔
        ((between (t.nanos - window.toInt) t.nanos
            (admitted client log)).length : Int) < max.toInt)) ∧
    (∀ first : Int, ((between first (first + window.toInt)
      (admitted client ((fresh window max).trace calls))).length : Int) ≤
        max.toInt) ∧
    ∀ kept, kept.Sublist ((fresh window max).trace calls) →
      admitted client kept = admitted client ((fresh window max).trace calls) →
      ((fresh window max).trace (kept.map (·.call))).filter (·.isOf client) =
        kept.filter (·.isOf client) := by
  obtain ⟨now, hnow⟩ := horder.exists_start
  have hfresh := tracks_fresh window max client now
  have hroom : 1 ≤ max.toInt := Int64.le_iff_toInt_le.mp hmax
  refine ⟨calls_of_trace _ calls, ?_, ?_, ?_⟩
  · intro log t granted rest htrace
    have hgranted := granted_iff_room hfresh hwindow horder hnow htrace
    rwa [window_fresh, max_fresh, List.nil_append] at hgranted
  · intro first
    have hempty :
        ((between first (first + window.toInt) []).length : Int) ≤
          max.toInt := by
      show (0 : Int) ≤ max.toInt
      omega
    have hbound := between_admitted_le hfresh hwindow horder hnow hempty
    rwa [window_fresh, max_fresh, List.nil_append] at hbound
  · intro kept hkept hadmitted
    exact decisions_eq hfresh hfresh rfl rfl hwindow horder
      hnow hkept hadmitted

/-- A client asks at the start of its window, at its very end, and right after
it, between which there is a sweep and another client asks. -/
def aroundTheEnd : List Call :=
  [.ask ⟨0⟩ [97], .ask ⟨10⟩ [97], .sweep ⟨10⟩, .ask ⟨11⟩ [98], .ask ⟨11⟩ [97]]

/-- It is refused at the end and admitted after it, and so it is without the
refused call, the sweep and the other client. -/
theorem decides_by_window_around_the_end :
    (0 : Int64) < 10 ∧ (1 : Int64) ≤ 1 ∧ InOrder aroundTheEnd ∧
      admitted [97] ((fresh 10 1).trace aroundTheEnd) = [⟨0⟩, ⟨11⟩] ∧
      (∀ first : Int,
          ((between first (first + 10) [⟨0⟩, ⟨11⟩]).length : Int) ≤ 1) ∧
      ((fresh 10 1).trace [.ask ⟨0⟩ [97], .ask ⟨11⟩ [97]]).filter
          (·.isOf [97]) =
        [⟨.ask ⟨0⟩ [97], true⟩, ⟨.ask ⟨11⟩ [97], true⟩] := by
  have hwindow : (0 : Int64) < 10 := by decide
  have hmax : (1 : Int64) ≤ 1 := by decide
  have horder : InOrder aroundTheEnd := by
    unfold InOrder
    decide
  have htrace :
      (fresh 10 1).trace aroundTheEnd =
        [⟨.ask ⟨0⟩ [97], true⟩, ⟨.ask ⟨10⟩ [97], false⟩, ⟨.sweep ⟨10⟩, false⟩,
          ⟨.ask ⟨11⟩ [98], true⟩, ⟨.ask ⟨11⟩ [97], true⟩] := by decide
  have hadmitted :
      admitted [97] ((fresh 10 1).trace aroundTheEnd) = [⟨0⟩, ⟨11⟩] := by
    rw [htrace]
    decide
  obtain ⟨-, -, hbound, hkept⟩ := decides_by_window hwindow hmax horder [97]
  rw [hadmitted] at hbound
  refine ⟨hwindow, hmax, horder, hadmitted, hbound, ?_⟩
  refine hkept [⟨.ask ⟨0⟩ [97], true⟩, ⟨.ask ⟨11⟩ [97], true⟩] ?_ ?_
  · rw [htrace]
    decide
  · rw [hadmitted]
    decide

end Record

end Limiter
end TickRelay
