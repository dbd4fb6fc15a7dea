import TickRelay.Proofs.DerivedDurations
import TickRelay.Proofs.FeedLifecycle
import Mathlib.Data.List.DropRight

/-!
# When the feed gives up

The run loop of the feed opens session after session until it has seen too many
losses in a row. A session that lasted long enough starts the count anew. The
length that is enough is set in seconds and compared in nanoseconds of 64 bits,
so that a length of more than 292 years wraps to a shorter one.

**Input.** The settings for reconnecting, and any run of the loop in which
nobody cancels it.

**Algorithm.** `Retry.losses` counts as the loop does. `Retry.Exhausted` and
`Retry.attemptAfter` are the rule, told by the lengths of the sessions alone:
which of them were long, and how many there were since. `Lifecycle.Course` is a
run with the lengths of its sessions.

**Results.** `lt_losses_iff` and `losses_eq` say what the count is in terms of
the sessions. `standing_of_course` says where the count leads the loop,
`exists_course` that every sequence of sessions which the count allows can take
place. `followsRule_iff`: the loop gives up, and numbers its attempts, by the
rule exactly if the set length does not wrap. `not_always_by_rule` has settings
with which it does not.
-/

namespace TickRelay
namespace Feed

namespace Retry

variable {r : Config.Retry} {long : Int → Bool} {ds : List Int} {d : Int}

/-- The losses in a row after sessions of some lengths. -/
def losses (long : Int → Bool) (ds : List Int) : Nat :=
  ds.foldl (fun n d => (if long d then 0 else n) + 1) 0

theorem losses_concat :
    losses long (ds ++ [d]) = (if long d then 0 else losses long ds) + 1 := by
  rw [losses, List.foldl_concat]
  rfl

/-- There are more than `n` losses in a row exactly if there were more than `n`
sessions and none of the last `n` was long. -/
theorem lt_losses_iff {n : Nat} :
    n < losses long ds ↔ n + 1 ≤ ds.length ∧
    ∀ d ∈ ds.rtake n, long d = false := by
  induction ds using List.reverseRecOn generalizing n with
  | nil => simp [losses]
  | append_singleton ds d ih =>
      rw [losses_concat]
      cases n with
      | zero => simp
      | succ n =>
          -- A long session at the end refutes both sides; after a short one
          -- the last `n + 1` sessions are that one and the last `n` before it.
          rw [List.rtake_concat_succ, List.forall_mem_append,
            List.forall_mem_singleton, List.length_append,
            List.length_singleton]
          cases hlong : long d with
          | true => simp
          | false =>
              have hlast := ih (n := n)
              simp only [Bool.false_eq_true, if_false, and_true]
              rw [Nat.add_lt_add_iff_right, hlast, Nat.add_le_add_iff_right]

/-- After a long session the count is one more than the sessions since then. -/
theorem losses_eq :
    losses long ds = if ds.any long then (ds.rtakeWhile (!long ·)).length + 1
      else ds.length := by
  induction ds using List.reverseRecOn with
  | nil => rfl
  | append_singleton ds d ih =>
      rw [losses_concat, List.rtakeWhile_concat, List.any_append,
        List.length_append]
      cases hlong : long d with
      | true => simp [hlong]
      | false =>
          rw [ih]
          cases hany : ds.any long with
          | true => simp [hlong]
          | false => simp [hlong]

/-- Whether a session lasted as long as is set, or longer. -/
def isLong (r : Config.Retry) (lasted : Int) : Bool :=
  decide (0 < r.resetSec.toInt ∧ r.resetSec.toInt * 1000000000 ≤ lasted)

/-- There is a limit, there were more sessions than it allows losses, and none
of the last ones, as many as it allows, was long. -/
def Exhausted (r : Config.Retry) (ds : List Int) : Prop :=
  0 < r.number.toInt ∧ r.number.toInt + 1 ≤ ds.length ∧
    ∀ d ∈ ds.rtake r.number.toInt.toNat, isLong r d = false

/-- The number of sessions after the last long one, or of all but one if there
was none. -/
def attemptAfter (r : Config.Retry) (ds : List Int) : Nat :=
  if ds.any (isLong r) then (ds.rtakeWhile (!isLong r ·)).length
  else ds.length - 1

/-- The count of losses is over the limit. -/
def IsOver (r : Config.Retry) (ds : List Int) : Prop :=
  0 < r.number ∧ r.number.toInt < losses (isReset r) ds

/-- One loss is within every limit. -/
theorem not_isOver_of_losses_le (h : losses (isReset r) ds ≤ 1) :
    ¬ IsOver r ds := by
  rintro ⟨hnumber, hlt⟩
  have hpos : 0 < r.number.toInt := Int64.lt_iff_toInt_lt.mp hnumber
  omega

/-- The decision after a session is taken by the count with it. -/
theorem afterSession_losses (r : Config.Retry) (ds : List Int) (d : Int) :
    (IsOver r (ds ++ [d]) ∧
        afterSession r (losses (isReset r) ds) d = .giveUp) ∨
    (¬ IsOver r (ds ++ [d]) ∧
      afterSession r (losses (isReset r) ds) d =
        .wait (losses (isReset r) (ds ++ [d]))) := by
  unfold IsOver afterSession
  rw [losses_concat]
  by_cases hover : 0 < r.number ∧
    r.number.toInt <
      ((if isReset r d then 0 else losses (isReset r) ds) + 1 : Nat)
  · exact Or.inl ⟨hover, if_pos hover⟩
  · exact Or.inr ⟨hover, if_neg hover⟩

theorem proper_resetSec (h : 0 < r.resetSec.toInt) :
    (Span.ofSeconds r.resetSec).Proper :=
  Config.proper_seconds (Int64.le_iff_toInt_le.mpr h)

theorem nanos_resetSec (r : Config.Retry) :
    (Span.ofSeconds r.resetSec).nanos = resetAfter r :=
  Span.nanos_ofSeconds r.resetSec

theorem exact_resetSec (r : Config.Retry) :
    (Span.ofSeconds r.resetSec).exact = r.resetSec.toInt * 1000000000 :=
  Int.ediv_one _

theorem isReset_iff :
    isReset r d = true ↔ 0 < r.resetSec.toInt ∧ (resetAfter r).toInt ≤ d := by
  have hsign : 0 < r.resetSec ↔ 0 < r.resetSec.toInt := Int64.lt_iff_toInt_lt
  rw [isReset, Bool.and_eq_true, decide_eq_true_iff, decide_eq_true_iff, hsign]

theorem isLong_iff :
    isLong r d = true ↔ 0 < r.resetSec.toInt ∧
    r.resetSec.toInt * 1000000000 ≤ d :=
  decide_eq_true_iff

/-- A length that does not wrap is the one that sessions are compared with. -/
theorem isReset_eq_isLong (h : r.resetSec.toInt * 1000000000 < 2 ^ 63) :
    isReset r = isLong r := by
  funext d
  rw [Bool.eq_iff_iff, isReset_iff, isLong_iff]
  refine and_congr_right fun hpos => ?_
  have hexact := (Span.nanos_exact_iff (proper_resetSec hpos)).mpr h
  rw [nanos_resetSec, exact_resetSec] at hexact
  rw [hexact]

/-- With a length that wraps, some session starts the count anew though it was
shorter. -/
theorem exists_isReset_of_wraps (h : 2 ^ 63 ≤ r.resetSec.toInt * 1000000000) :
    ∃ d : Int, 0 ≤ d ∧ isReset r d = true ∧ isLong r d = false := by
  have hpos : 0 < r.resetSec.toInt := by omega
  have hlt := (proper_resetSec hpos).nanos_lt_exact h
  rw [nanos_resetSec, exact_resetSec] at hlt
  refine ⟨max 0 (resetAfter r).toInt, Int.le_max_left _ _, ?_, ?_⟩
  · exact isReset_iff.mpr ⟨hpos, Int.le_max_right _ _⟩
  · rw [Bool.eq_false_iff, Ne, isLong_iff]
    rintro ⟨-, hle⟩
    omega

section Agreement

variable (hagree : isReset r = isLong r)
include hagree

/-- A loop that takes the same sessions for long as the rule gives up by the
rule. -/
theorem isOver_iff_exhausted : IsOver r ds ↔ Exhausted r ds := by
  have hnumber : 0 < r.number ↔ 0 < r.number.toInt := Int64.lt_iff_toInt_lt
  rw [IsOver, Exhausted, hagree, hnumber]
  refine and_congr_right fun hpos => ?_
  have hcast : (r.number.toInt.toNat : Int) = r.number.toInt :=
    Int.toNat_of_nonneg (Int.le_of_lt hpos)
  have hlt : r.number.toInt.toNat < losses (isLong r) ds ↔ _ := lt_losses_iff
  rw [← Int.ofNat_lt, ← Int.ofNat_le, Int.natCast_add, hcast] at hlt
  exact hlt

/-- A loop that takes the same sessions for long as the rule numbers its
attempts by the rule. -/
theorem attempt_losses (hne : ds ≠ []) :
    attempt (losses (isReset r) ds) = attemptAfter r ds := by
  rw [hagree, losses_eq, attemptAfter, attempt]
  have hlength := List.length_pos_iff.mpr hne
  split <;> omega

end Agreement

/-- A property has not held of a sequence before its end. -/
def NoneBefore (P : List Int → Prop) (ds : List Int) : Prop :=
  ∀ p, p <+: ds → p ≠ ds → ¬ P p

theorem noneBefore_nil {P : List Int → Prop} : NoneBefore P [] :=
  fun _ hp hne => absurd (List.prefix_nil.mp hp) hne

theorem noneBefore_concat {P : List Int → Prop} :
    NoneBefore P (ds ++ [d]) ↔ NoneBefore P ds ∧ ¬ P ds := by
  constructor
  · intro h
    have hshorter : ∀ p, p <+: ds → ¬ P p := by
      intro p hp
      refine h p (hp.trans (List.prefix_append ds [d])) ?_
      rintro rfl
      have hlength := hp.length_le
      rw [List.length_append, List.length_singleton] at hlength
      omega
    exact ⟨fun p hp _ => hshorter p hp, hshorter ds List.prefix_rfl⟩
  · rintro ⟨hbefore, hends⟩ p hp hne
    obtain rfl | hp := List.prefix_concat_iff.mp hp
    · exact absurd rfl hne
    · by_cases heq : p = ds
      · exact heq ▸ hends
      · exact hbefore p hp heq

end Retry

namespace Place

/-- The losses that the loop has counted, until it leaves. There is no wait
before the first loss. -/
def losses? : Place → Option Nat
  | idle | registered | waiting => some 0
  | dialing n | dialed n _ | stored n _ | reading n _ | failed n _
  | unflagged n _ => some n
  | ended n | lost n => some n
  | pausing (n + 1) => some (n + 1)
  | pausing 0 | leaving | returned _ => none

end Place

namespace Lifecycle

variable {configured : List Bytes} {r : Config.Retry} {ds : List Int}
  {m m' : Lifecycle} {e : Event} {es : List Event} {n : Nat}

/-- Whether an event cancels the loop or leads to that. -/
def Event.cancels : Event → Bool
  | abort | disconnect => true
  | _ => false

/-- The length of the session that ends with an event. -/
def Event.lasted? : Event → Option Int
  | decide lasted => some lasted
  | _ => none

/-- The lengths of the sessions that ended, each from the start of the dial
on. -/
def durations (es : List Event) : List Int := es.filterMap Event.lasted?

theorem durations_concat :
    durations (es ++ [e]) = durations es ++ e.lasted?.toList := by
  rw [durations, List.filterMap_append, durations]
  cases e <;> rfl

/-- Nobody has canceled the loop. -/
structure Undisturbed (r : Config.Retry) (m : Lifecycle) : Prop where
  retry : m.retry = r
  calls : m.calls = []
  stopped : m.client.isStopped = false
  aborted : m.aborted = false

theorem Undisturbed.step (h : Undisturbed r m) (he : e.cancels = false)
    (hstep : m.step e = some m') : Undisturbed r m' := by
  cases move_of_step hstep with
  | stopped | aborts => cases he
  | looks hcall | cancels hcall | closes hcall =>
      rw [h.calls] at hcall
      cases hcall
  | _ => exact ⟨h.retry, h.calls, h.stopped, h.aborted⟩

/-- A wait that is over leads to a dial with the same losses. -/
theorem losses_of_proceed (h : m.step .proceed = some m')
    (hlosses : m.place.losses? = some n) : m'.place.losses? = some n := by
  simp only [step] at h
  split at h
  case h_1 hplace =>
    rw [hplace] at hlosses
    split at h
    case isTrue =>
      cases h
      exact hlosses
    case isFalse => cases h
  case h_2 k hplace =>
    rw [hplace] at hlosses
    cases h
    cases k with
    | zero => cases hlosses
    | succ k => exact hlosses
  case h_3 => cases h

/-- What the decision after a session leads to. -/
theorem decided_of_step {lasted : Int}
    (h : m.step (.decide lasted) = some m') :
    ∃ n, m.place = .lost n ∧
      (Retry.afterSession m.retry n lasted = .giveUp ∧
          m' = m.leave (some (Retry.gaveUp m.retry)) ∨
       ∃ k, Retry.afterSession m.retry n lasted = .wait k ∧
         m' = { m with place := .pausing k }) := by
  simp only [step] at h
  split at h
  case h_1 n hplace =>
    refine ⟨n, hplace, ?_⟩
    split at h
    case h_1 hdecision =>
      cases h
      exact Or.inl ⟨hdecision, rfl⟩
    case h_2 k hdecision =>
      cases h
      exact Or.inr ⟨k, hdecision, rfl⟩
  case h_2 => cases h

/-- Any event but a decision leaves the losses as they are. -/
theorem losses_of_step (hm : Undisturbed r m) (hcanceled : m.canceled = false)
    (hlosses : m.place.losses? = some n) (he : e.cancels = false)
    (hlasted : e.lasted? = none) (hstep : m.step e = some m') :
    m'.place.losses? = some n ∧ m'.canceled = false := by
  cases move_of_step hstep with
  | starts hplace =>
      rw [hplace] at hlosses
      exact ⟨hlosses, hm.aborted⟩
  | refuses _ hstopped =>
      rw [hm.stopped] at hstopped
      cases hstopped
  | waits hplace | stores hplace | flags hplace | fails hplace | unflags hplace
  | forgets hplace | loses hplace | connects hplace | misses hplace =>
      rw [hplace] at hlosses
      exact ⟨hlosses, hcanceled⟩
  | exits hplace =>
      rw [hplace] at hlosses
      cases hlosses
  | proceeds =>
      exact ⟨losses_of_proceed hstep hlosses, hcanceled⟩
  | stops _ hdone | heeds _ hdone | watches _ hdone =>
      rw [hcanceled] at hdone
      cases hdone
  | givesUp | pauses => cases hlasted
  | stopped | aborts => cases he
  | looks hcall | cancels hcall | closes hcall =>
      rw [hm.calls] at hcall
      cases hcall
  | wanted | breaks => exact ⟨hlosses, hcanceled⟩

/-- A loop that has returned does nothing more. -/
theorem returned_of_step {failure : Option Fault}
    (hplace : m.place = .returned failure) (hstep : m.step e = some m') :
    m'.place = .returned failure ∧ e.lasted? = none := by
  cases move_of_step hstep with
  | starts hother | refuses hother | waits hother | stores hother
  | flags hother | fails hother | unflags hother | forgets hother
  | stops hother | loses hother | exits hother | proceeds hother | heeds hother
  | connects hother | misses hother | givesUp hother | pauses hother
  | watches hother | breaks hother =>
      rw [hplace] at hother
      cases hother
  | wanted | stopped | looks | cancels | closes | aborts => exact ⟨hplace, rfl⟩

/-- Where the loop stands after sessions of some lengths. -/
inductive Standing (r : Config.Retry) (ds : List Int) (m : Lifecycle) : Prop
  | goesOn
      (hlosses : m.place.losses? = some (Retry.losses (Retry.isReset r) ds))
      (hcanceled : m.canceled = false) (hwithin : ¬ Retry.IsOver r ds)
  | gaveUp (hplace : m.place = .returned (some (Retry.gaveUp r)))
      (hover : Retry.IsOver r ds)

/-- After the decision the loop stands as the count with that session says. -/
theorem standing_of_decide {lasted : Int} (hm : Undisturbed r m)
    (hcanceled : m.canceled = false)
    (hlosses : m.place.losses? = some (Retry.losses (Retry.isReset r) ds))
    (hstep : m.step (.decide lasted) = some m') :
    Standing r (ds ++ [lasted]) m' := by
  obtain ⟨n, hplace, hdecided⟩ := decided_of_step hstep
  rw [hplace] at hlosses
  obtain rfl : n = Retry.losses (Retry.isReset r) ds :=
    Option.some_inj.mp hlosses
  rw [hm.retry] at hdecided
  obtain ⟨hover, hgiveUp⟩ | ⟨hwithin, hwait⟩ :=
    Retry.afterSession_losses r ds lasted
  · obtain ⟨-, rfl⟩ | ⟨k, hother, -⟩ := hdecided
    · exact .gaveUp rfl hover
    · rw [hgiveUp] at hother
      cases hother
  · obtain ⟨hother, -⟩ | ⟨k, hsame, rfl⟩ := hdecided
    · rw [hwait] at hother
      cases hother
    · rw [hwait, Retry.losses_concat] at hsame
      cases hsame
      exact .goesOn (congrArg some Retry.losses_concat.symm) hcanceled hwithin

/-- An event keeps the loop where the sessions so far have led it. -/
theorem Standing.step (h : Standing r ds m) (hm : Undisturbed r m)
    (he : e.cancels = false) (hstep : m.step e = some m') :
    Standing r (ds ++ e.lasted?.toList) m' := by
  cases h with
  | goesOn hlosses hcanceled hwithin =>
      cases hlasted : e.lasted? with
      | none =>
          obtain ⟨hsame, hgoesOn⟩ :=
            losses_of_step hm hcanceled hlosses he hlasted hstep
          rw [Option.toList_none, List.append_nil]
          exact .goesOn hsame hgoesOn hwithin
      | some lasted =>
          cases e with
          | decide d =>
              cases hlasted
              exact standing_of_decide hm hcanceled hlosses hstep
          | _ => cases hlasted
  | gaveUp hplace hover =>
      -- Only callers can still do something, and no session ends.
      obtain ⟨hsame, hlasted⟩ := returned_of_step hplace hstep
      rw [hlasted, Option.toList_none, List.append_nil]
      exact .gaveUp hsame hover

/-- A session ends only while the losses are within the limit. -/
theorem Standing.noneBefore (h : Standing r ds m) (hstep : m.step e = some m')
    (hbefore : Retry.NoneBefore (Retry.IsOver r) ds) :
    Retry.NoneBefore (Retry.IsOver r) (ds ++ e.lasted?.toList) := by
  cases hlasted : e.lasted? with
  | none =>
      rw [Option.toList_none, List.append_nil]
      exact hbefore
  | some lasted =>
      refine Retry.noneBefore_concat.mpr ⟨hbefore, ?_⟩
      cases h with
      | goesOn _ _ hwithin => exact hwithin
      | gaveUp hplace =>
          rw [(returned_of_step hplace hstep).2] at hlasted
          cases hlasted

/-- A run of the loop that nobody cancels, with the lengths of its sessions. -/
structure Course (configured : List Bytes) (r : Config.Retry) (ds : List Int)
    (es : List Event) (m : Lifecycle) : Prop where
  run : Runs.run step (start configured r) es = some m
  quiet : ∀ e ∈ es, e.cancels = false
  lengths : durations es = ds

theorem standing_of_course (h : Course configured r ds es m) :
    Retry.NoneBefore (Retry.IsOver r) ds ∧ Standing r ds m := by
  have hstart : Standing r [] (start configured r) :=
    .goesOn rfl rfl (Retry.not_isOver_of_losses_le (Nat.zero_le 1))
  have hrun := Runs.run_history
    (P := fun es m => (∀ e ∈ es, e.cancels = false) →
      Undisturbed r m ∧ Retry.NoneBefore (Retry.IsOver r) (durations es) ∧
      Standing r (durations es) m)
    (fun _ => ⟨⟨rfl, rfl, rfl, rfl⟩, Retry.noneBefore_nil, hstart⟩)
    (fun es m e m' _ hpast hstep hquiet => by
      obtain ⟨hes, he⟩ := List.forall_mem_append.mp hquiet
      have he : e.cancels = false := he e (List.mem_singleton_self e)
      obtain ⟨hm, hbefore, hstanding⟩ := hpast hes
      rw [durations_concat]
      exact ⟨hm.step he hstep, hstanding.noneBefore hstep hbefore,
        hstanding.step hm he hstep⟩) h.run h.quiet
  rw [h.lengths] at hrun
  exact hrun.2

/-- The loop may begin a session, with some losses so far. -/
structure Ready (r : Config.Retry) (n : Nat) (m : Lifecycle) : Prop where
  retry : m.retry = r
  canceled : m.canceled = false
  place : m.place = .pausing n ∨
    (m.place = .waiting ∧ m.client.isWanted = true ∧ n = 0)

/-- The events of a session that connects and breaks, up to where the loop
finds that. -/
def breakage : List Event :=
  [.proceed, .dial true, .advance, .advance, .fracture, .advance]

/-- The events of a session that connects, breaks and has lasted for some
time. -/
def session (lasted : Int) : List Event :=
  breakage ++ [.advance, .advance, .advance] ++ [.decide lasted]

theorem quiet_session (lasted : Int) :
    ∀ e ∈ session lasted, e.cancels = false := by
  simp [session, breakage, Event.cancels]

/-- The loop in a session that has broken. -/
def broken (m : Lifecycle) (n : Nat) : Lifecycle :=
  { m with
    client := (m.client.openSession m.opened).1
    isFlagged := true
    opened := m.opened + 1
    closed := m.opened :: m.closed
    place := .failed n m.opened }

theorem Ready.proceed (h : Ready r n m) :
    m.step .proceed = some { m with place := .dialing n } := by
  obtain hplace | ⟨hplace, hwanted, rfl⟩ := h.place
  · simp only [step, hplace]
  · simp only [step, hplace, hwanted, if_true]

theorem run_breakage (h : Ready r n m) :
    Runs.run step m breakage = some (m.broken n) := by
  refine Runs.run_cons.mpr ⟨_, h.proceed, ?_⟩
  have hbroken : m.opened ∈ m.opened :: m.closed := List.mem_cons_self
  simp only [Runs.run, step, advance?, Option.bind_some,
    if_true, if_pos hbroken]
  rfl

/-- After the decision about a session the loop is ready again unless it gives
up. -/
theorem run_decide (hplace : m.place = .lost n) (hretry : m.retry = r)
    (hcanceled : m.canceled = false) (lasted : Int) :
    ∃ m', Runs.run step m [.decide lasted] = some m' ∧
      ∀ k, Retry.afterSession r n lasted = .wait k → Ready r k m' := by
  simp only [Runs.run, step, hplace, hretry]
  cases hdecision : Retry.afterSession r n lasted with
  | giveUp => exact ⟨_, rfl, fun k hk => by cases hk⟩
  | wait k =>
      refine ⟨_, rfl, fun k hk => ?_⟩
      cases hk
      exact ⟨rfl, hcanceled, Or.inl rfl⟩

/-- A loop that is ready can have a session of any length, and is ready again
unless it gives up. -/
theorem run_session (h : Ready r n m) (lasted : Int) :
    ∃ m', Runs.run step m (session lasted) = some m' ∧
      ∀ k, Retry.afterSession r n lasted = .wait k → Ready r k m' := by
  have hchecked : Runs.run step (m.broken n) [.advance, .advance, .advance] =
      some ((m.broken n).checked n m.opened) := run_checked rfl
  have hlost := Runs.run_append.mpr ⟨_, run_breakage h, hchecked⟩
  have hplace : ((m.broken n).checked n m.opened).place = .lost n :=
    if_neg (Bool.not_eq_true _ ▸ h.canceled)
  obtain ⟨m', hm', hready⟩ := run_decide hplace h.retry h.canceled lasted
  exact ⟨m', Runs.run_append.mpr ⟨_, hlost, hm'⟩, hready⟩

/-- The events up to where the first session may begin. -/
def opening : List Event := [.start, .advance, .connect]

/-- Every sequence of sessions can take place up to the one with which the
losses are over the limit, and unless that is the last, the loop is ready for
another. This holds of any kind of session that a ready loop can have. -/
theorem course_of_sessions {kind : Int → List Event} (configured : List Bytes)
    (hrun : ∀ {n m}, Ready r n m →
      ∀ d, ∃ m', Runs.run step m (kind d) = some m' ∧
      ∀ k, Retry.afterSession r n d = .wait k → Ready r k m')
    (hquiet : ∀ d, ∀ e ∈ kind d, e.cancels = false)
    (hlength : ∀ d, durations (kind d) = [d])
    (h : Retry.NoneBefore (Retry.IsOver r) ds) :
    ∃ m, Course configured r ds (opening ++ ds.flatMap kind) m ∧
      (¬ Retry.IsOver r ds →
          Ready r (Retry.losses (Retry.isReset r) ds) m) := by
  induction ds using List.reverseRecOn with
  | nil =>
      refine ⟨_, ⟨rfl, ?_, rfl⟩, fun _ => ?_⟩
      · simp [opening, Event.cancels]
      · exact ⟨rfl, rfl, Or.inr ⟨rfl, rfl, rfl⟩⟩
  | append_singleton ds d ih =>
      obtain ⟨hbefore, hwithin⟩ := Retry.noneBefore_concat.mp h
      obtain ⟨m, hcourse, hready⟩ := ih hbefore
      obtain ⟨m', hm', hagain⟩ := hrun (hready hwithin) d
      have hevents :
          opening ++ (ds ++ [d]).flatMap kind =
            opening ++ ds.flatMap kind ++ kind d := by
        rw [List.flatMap_append, List.flatMap_singleton, List.append_assoc]
      rw [hevents]
      refine ⟨m', ⟨?_, ?_, ?_⟩, fun hnext => ?_⟩
      · exact Runs.run_append.mpr ⟨m, hcourse.run, hm'⟩
      · exact List.forall_mem_append.mpr ⟨hcourse.quiet, hquiet d⟩
      · rw [durations, List.filterMap_append]
        exact congrArg₂ (· ++ ·) hcourse.lengths (hlength d)
      · obtain ⟨hover, -⟩ | ⟨-, hwait⟩ := Retry.afterSession_losses r ds d
        · exact absurd hover hnext
        · exact hagain _ hwait

theorem exists_course (configured : List Bytes)
    (h : Retry.NoneBefore (Retry.IsOver r) ds) :
    ∃ es m, Course configured r ds es m ∧
      (¬ Retry.IsOver r ds → Ready r (Retry.losses (Retry.isReset r) ds) m) :=
  ⟨_, course_of_sessions configured run_session quiet_session (fun _ => rfl) h⟩

/-- The loop goes by the rule. The sequences of sessions that can take place
are those that the rule does not end earlier, the loop has given up exactly if
the rule ends it with the last session, and the attempt that a wait is for is
the one of the rule. -/
def FollowsRule (r : Config.Retry) : Prop :=
  ∀ (configured : List Bytes) (ds : List Int), (∀ d ∈ ds, 0 ≤ d) →
    ((∃ es m, Course configured r ds es m) ↔
      Retry.NoneBefore (Retry.Exhausted r) ds) ∧
    ∀ es m, Course configured r ds es m →
      (∀ f, m.place = .returned f ↔ f = some (Retry.gaveUp r) ∧
        Retry.Exhausted r ds) ∧
      (∀ n, m.place = .pausing n → Retry.attempt n = Retry.attemptAfter r ds)

/-- The sequences of sessions that can take place are those that the count does
not end earlier. -/
theorem exists_course_iff (configured : List Bytes) (r : Config.Retry)
    (ds : List Int) :
    (∃ es m, Course configured r ds es m) ↔
      Retry.NoneBefore (Retry.IsOver r) ds := by
  constructor
  · rintro ⟨es, m, hcourse⟩
    exact (standing_of_course hcourse).1
  · intro h
    obtain ⟨es, m, hcourse, -⟩ := exists_course configured h
    exact ⟨es, m, hcourse⟩

/-- The loop has given up exactly if the count is over the limit. -/
theorem returned_iff (h : Course configured r ds es m) (f : Option Fault) :
    m.place = .returned f ↔ f = some (Retry.gaveUp r) ∧ Retry.IsOver r ds := by
  cases (standing_of_course h).2 with
  | goesOn hlosses _ hwithin =>
      refine iff_of_false (fun hplace => ?_) (fun hover => hwithin hover.2)
      rw [hplace] at hlosses
      cases hlosses
  | gaveUp hplace hover =>
      rw [hplace]
      constructor
      · intro heq
        cases heq
        exact ⟨rfl, hover⟩
      · rintro ⟨rfl, -⟩
        rfl

/-- Before a wait there was a session, and the wait is for the losses so
far. -/
theorem losses_of_pausing (h : Course configured r ds es m)
    (hplace : m.place = .pausing n) :
    ds ≠ [] ∧ n = Retry.losses (Retry.isReset r) ds := by
  cases (standing_of_course h).2 with
  | goesOn hlosses =>
      rw [hplace] at hlosses
      cases n with
      | zero => cases hlosses
      | succ n =>
          have hcount : n + 1 = Retry.losses (Retry.isReset r) ds :=
            Option.some_inj.mp hlosses
          refine ⟨?_, hcount⟩
          rintro rfl
          cases hcount
  | gaveUp hother =>
      rw [hplace] at hother
      cases hother

theorem followsRule_of_exact (h : r.resetSec.toInt * 1000000000 < 2 ^ 63) :
    FollowsRule r := by
  have hagree := Retry.isReset_eq_isLong h
  have hrule : Retry.IsOver r = Retry.Exhausted r :=
    funext fun _ => propext (Retry.isOver_iff_exhausted hagree)
  intro configured ds _
  refine ⟨hrule ▸ exists_course_iff configured r ds,
    fun es m hcourse => ⟨?_, fun n hplace => ?_⟩⟩
  · exact fun f => hrule ▸ returned_iff hcourse f
  · obtain ⟨hne, rfl⟩ := losses_of_pausing hcourse hplace
    exact Retry.attempt_losses hagree hne

/-- With a length that wraps, two sessions of a certain length are two losses
by the rule and one by the count. -/
theorem not_followsRule_of_wraps (h : 2 ^ 63 ≤ r.resetSec.toInt * 1000000000) :
    ¬ FollowsRule r := by
  intro hrule
  obtain ⟨d, hnonneg, hreset, hshort⟩ := Retry.exists_isReset_of_wraps h
  have hlosses : ∀ ds, Retry.losses (Retry.isReset r) (ds ++ [d]) = 1 := by
    intro ds
    rw [Retry.losses_concat, hreset, if_pos rfl]
  have hwithin : ∀ ds, ¬ Retry.IsOver r (ds ++ [d]) := fun ds =>
    Retry.not_isOver_of_losses_le (Nat.le_of_eq (hlosses ds))
  have hbefore : Retry.NoneBefore (Retry.IsOver r) ([d] ++ [d]) :=
    Retry.noneBefore_concat.mpr ⟨Retry.noneBefore_concat.mpr
      ⟨Retry.noneBefore_nil, Retry.not_isOver_of_losses_le (Nat.zero_le 1)⟩,
      hwithin []⟩
  obtain ⟨es, m, hcourse, hready⟩ := exists_course [] hbefore
  have hplace : m.place = .pausing 1 := by
    have hready := (hready (hwithin [d])).place
    rw [hlosses] at hready
    obtain hplace | ⟨-, -, hzero⟩ := hready
    · exact hplace
    · cases hzero
  have hattempt :=
    ((hrule [] ([d] ++ [d]) (by simp [hnonneg])).2 es m hcourse).2 1 hplace
  simp [Retry.attempt, Retry.attemptAfter, hshort] at hattempt

/-- The loop goes by the rule exactly if the length after which a session
counts as long does not wrap. -/
theorem followsRule_iff (r : Config.Retry) :
    FollowsRule r ↔ r.resetSec.toInt * 1000000000 < 2 ^ 63 := by
  refine ⟨fun hrule => ?_, followsRule_of_exact⟩
  by_contra hwraps
  exact not_followsRule_of_wraps (Int.not_lt.mp hwraps) hrule

/-- Settings that pass every check, with a limit of one loss and a length of
more than 292 years. -/
def farReset : Config :=
  { feed := { retry := { number := 1, resetSec := 9223372037 } } }

theorem not_always_by_rule :
    ¬ ∀ c valid : Config, c.validate = .ok valid →
      FollowsRule valid.feed.retry := by
  intro h
  have hvalid : farReset.validate = .ok farReset := rfl
  exact not_followsRule_of_wraps (by decide) (h farReset farReset hvalid)

end Lifecycle
end Feed
end TickRelay
