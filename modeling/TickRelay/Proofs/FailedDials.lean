import TickRelay.Proofs.ReconnectLimit

/-!
# Dials that fail

The run loop of the feed counts losses in a row, and the count is meant to
start anew only after a connection that stayed up for the set time. What the
loop compares with that time is how long the session lasted from the start of
its dial on, whether or not the dial came to a connection.

**Input.** The settings for reconnecting, and a limit on the time that a dial
takes to fail.

**Algorithm.** `dials` are the outcomes of the dials in a run of the loop.
`CountsFailures` says that each session whose dial failed is one more loss,
`Surrenders` that a loop of which no dial ever succeeds gives up right after as
many dials as are allowed and one.

**Results.** `length_dials`: a run has a dial for every session.
`course_of_failures`: any sequence of failed dials can take place that the
count does not end earlier. `failures_count_iff`: failed dials are counted,
and end the loop in time, exactly if none of them can take as long as the set
time, reckoned in 64 bits. `late_or_never` has settings with which the loop
goes on for ever.
-/

namespace TickRelay

/-- The nanoseconds after which a dial fails for want of an answer, if there is
such a limit. One that wraps below zero is over at once. -/
def Config.Websocket.dialLimit? (w : Config.Websocket) : Option Nat :=
  if 0 < w.connTimeoutSec then some (w.connTimeoutSec * 1000000000).toInt.toNat
  else none

namespace Feed

namespace Retry

variable {r : Config.Retry} {limit : Option Nat} {ds : List Int} {d : Int}
  {n : Nat}

/-- A dial may take this long to fail. -/
def Fails (limit : Option Nat) (d : Int) : Prop :=
  0 ≤ d ∧ ∀ t ∈ limit, d ≤ (t : Int)

/-- No dial takes so long to fail that its session counts as long. -/
def Brief (r : Config.Retry) (limit : Option Nat) : Prop :=
  r.resetSec.toInt ≤ 0 ∨
    ∃ t ∈ limit, (t : Int) < (r.resetSec.toInt * 1000000000).bmod (2 ^ 64)

theorem toInt_resetAfter (r : Config.Retry) :
    (resetAfter r).toInt = (r.resetSec.toInt * 1000000000).bmod (2 ^ 64) := by
  rw [resetAfter, Int64.toInt_mul]
  rfl

theorem Brief.not_isReset (h : Brief r limit) (hd : Fails limit d) :
    isReset r d = false := by
  rw [Bool.eq_false_iff, Ne, isReset_iff, toInt_resetAfter]
  rintro ⟨hpos, hreset⟩
  obtain hnever | ⟨t, ht, hlate⟩ := h
  · omega
  · have hintime := hd.2 t ht
    omega

/-- Where the set time can be reached, there is a dial that reaches it. -/
theorem exists_isReset_of_not_brief (h : ¬ Brief r limit) :
    ∃ d, Fails limit d ∧ isReset r d = true := by
  rw [Brief, not_or, not_exists] at h
  obtain ⟨hpos, hlimit⟩ := h
  refine ⟨max 0 (resetAfter r).toInt,
    ⟨Int.le_max_left _ _, fun t ht => ?_⟩, ?_⟩
  · have hreached := hlimit t
    rw [not_and, Int.not_lt, ← toInt_resetAfter] at hreached
    exact Int.max_le.mpr ⟨Int.natCast_nonneg t, hreached ht⟩
  · exact isReset_iff.mpr ⟨Int.not_le.mp hpos, Int.le_max_right _ _⟩

/-- Without a long session every session is a loss. -/
theorem losses_of_short (h : ∀ d ∈ ds, isReset r d = false) :
    losses (isReset r) ds = ds.length := by
  have hnone : ds.any (isReset r) = false :=
    List.any_eq_false.mpr fun d hd => by rw [h d hd]; decide
  rw [losses_eq, hnone, if_neg Bool.false_ne_true]

theorem isOver_of_short (h : ∀ d ∈ ds, isReset r d = false) :
    IsOver r ds ↔ 0 < r.number.toInt ∧ r.number.toInt < ds.length := by
  have hnumber : 0 < r.number ↔ 0 < r.number.toInt := Int64.lt_iff_toInt_lt
  rw [IsOver, losses_of_short h, hnumber]

/-- Short sessions come to an end with the first one that is beyond the
limit. -/
theorem noneBefore_of_short (hnumber : 0 < r.number.toInt)
    (h : ∀ d ∈ ds, isReset r d = false) :
    NoneBefore (IsOver r) ds ↔ (ds.length : Int) ≤ r.number.toInt + 1 := by
  induction ds using List.reverseRecOn with
  | nil =>
      refine iff_of_true noneBefore_nil ?_
      rw [List.length_nil]
      omega
  | append_singleton ds d ih =>
      have hds := (List.forall_mem_append.mp h).1
      rw [noneBefore_concat, ih hds, isOver_of_short hds, List.length_append,
        List.length_singleton]
      omega

/-- Sessions of one length that starts the count anew never end the loop. -/
theorem noneBefore_of_long (hd : isReset r d = true) (k : Nat) :
    NoneBefore (IsOver r) (List.replicate k d) ∧
    ¬ IsOver r (List.replicate k d) := by
  induction k with
  | zero => exact ⟨noneBefore_nil, not_isOver_of_losses_le (Nat.zero_le 1)⟩
  | succ k ih =>
      have hone : losses (isReset r) (List.replicate k d ++ [d]) = 1 := by
        rw [losses_concat, hd, if_pos rfl]
      rw [List.replicate_succ']
      exact ⟨noneBefore_concat.mpr ih,
        not_isOver_of_losses_le (Nat.le_of_eq hone)⟩

end Retry

namespace Place

/-- Whether the dial of a session is over, and the decision about it is to
come. -/
def isDialed : Place → Bool
  | dialed _ _ | stored _ _ | reading _ _ | failed _ _ | unflagged _ _
  | ended _ | lost _ => true
  | _ => false

theorem isDialed_of_isWait {p : Place} (h : p.isWait = true) :
    p.isDialed = false := by
  cases p with
  | waiting | pausing => rfl
  | _ => cases h

end Place

namespace Lifecycle

variable {configured : List Bytes} {r : Config.Retry} {limit : Option Nat}
  {ds : List Int} {es : List Event} {m m' : Lifecycle} {e : Event} {n : Nat}
  {lasted : Int}

/-- The outcome of the dial that ends with an event. -/
def Event.connects? : Event → Option Bool
  | dial connects => some connects
  | _ => none

/-- The outcomes of the dials so far. -/
def dials (es : List Event) : List Bool := es.filterMap Event.connects?

/-- Where the loop stands after a loss, with the losses in a row. -/
def afterLoss (r : Config.Retry) (losses : Nat) : Place :=
  if 0 < r.number ∧ r.number.toInt < losses then
    .returned (some (Retry.gaveUp r))
  else .pausing losses

/-- A session whose dial failed is one more loss in a row. -/
def CountsFailures (r : Config.Retry) (limit : Option Nat) : Prop :=
  ∀ (configured : List Bytes) (es : List Event) (m m' : Lifecycle)
      (lasted : Int),
    Runs.run step (start configured r) es = some m →
    (dials es).getLast? = some false →
    Retry.Fails limit lasted → m.step (.decide lasted) = some m' →
    ∃ n, m.place = .lost n ∧ m'.place = afterLoss r (n + 1)

/-- If no dial ever succeeds, the loop gives up right after as many dials as
are allowed and one: it comes that far, never further, and has returned exactly
if that many sessions have ended. -/
def Surrenders (r : Config.Retry) (limit : Option Nat) : Prop :=
  ∀ (configured : List Bytes) (ds : List Int),
    (∀ d ∈ ds, Retry.Fails limit d) →
    ((∃ es m, Course configured r ds es m ∧ ∀ c ∈ dials es, c = false) ↔
      (ds.length : Int) ≤ r.number.toInt + 1) ∧
    ∀ es m, Course configured r ds es m → (∀ c ∈ dials es, c = false) →
      ((dials es).length : Int) ≤ r.number.toInt + 1 ∧
      ∀ f, m.place = .returned f ↔ f = some (Retry.gaveUp r) ∧
      (ds.length : Int) = r.number.toInt + 1

section Decision

theorem retry_of_step (h : m.step e = some m') : m'.retry = m.retry := by
  cases move_of_step h <;> rfl

theorem retry_of_run (h : Runs.run step (start configured r) es = some m) :
    m.retry = r :=
  Runs.run_invariant (P := fun m => m.retry = r)
    (fun _ _ _ hm hstep => (retry_of_step hstep).trans hm)
    rfl h

/-- After a session that does not start the count anew, there is one more
loss. -/
theorem afterLoss_of_step (hretry : m.retry = r)
    (hshort : Retry.isReset r lasted = false)
    (h : m.step (.decide lasted) = some m') :
    ∃ n, m.place = .lost n ∧ m'.place = afterLoss r (n + 1) := by
  obtain ⟨n, hplace, hdecided⟩ := decided_of_step h
  refine ⟨n, hplace, ?_⟩
  rw [hretry, Retry.afterSession, hshort, if_neg Bool.false_ne_true]
    at hdecided
  split at hdecided
  case isTrue hover =>
    obtain ⟨-, rfl⟩ | ⟨k, hother, -⟩ := hdecided
    · exact (if_pos hover).symm
    · cases hother
  case isFalse hwithin =>
    obtain ⟨hother, -⟩ | ⟨k, hsame, rfl⟩ := hdecided
    · cases hother
    · cases hsame
      exact (if_neg hwithin).symm

theorem countsFailures_of_brief (h : Retry.Brief r limit) :
    CountsFailures r limit :=
  fun _ _ _ _ _ hrun _ hfails hstep =>
    afterLoss_of_step (retry_of_run hrun) (h.not_isReset hfails) hstep

end Decision

section Dials

theorem dials_concat : dials (es ++ [e]) = dials es ++ e.connects?.toList := by
  rw [dials, List.filterMap_append, dials]
  cases e <;> rfl

/-- A dial begins what the decision ends, while nobody cancels the loop in
between. -/
theorem dialed_of_step (hstep : m.step e = some m')
    (hended : ∀ n, m.place = .ended n → m.canceled = false) :
    m.place.isDialed.toNat + e.connects?.toList.length =
      m'.place.isDialed.toNat + e.lasted?.toList.length := by
  cases move_of_step hstep with
  | stops hplace hcanceled =>
      rw [hended _ hplace] at hcanceled
      cases hcanceled
  | proceeds hplace | heeds hplace =>
      rw [Place.isDialed_of_isWait hplace]
      rfl
  | starts hplace | refuses hplace | waits hplace | stores hplace
  | flags hplace | fails hplace | unflags hplace | forgets hplace
  | loses hplace | exits hplace | connects hplace | misses hplace
  | givesUp hplace | pauses hplace =>
      rw [hplace]
      rfl
  | wanted | stopped | looks | cancels | closes | aborts | watches
  | breaks => rfl

/-- A run has a dial for every session that ended, and one for the session that
goes on. -/
theorem length_dials (h : Course configured r ds es m) :
    (dials es).length = ds.length + m.place.isDialed.toNat := by
  have hrun := Runs.run_history
    (P := fun es m => (∀ e ∈ es, e.cancels = false) →
      (dials es).length = (durations es).length + m.place.isDialed.toNat)
    (fun _ => rfl)
    (fun es m e m' hpast hlength hstep hquiet => by
      have hes := (List.forall_mem_append.mp hquiet).1
      have hended : ∀ n, m.place = .ended n → m.canceled = false := by
        intro n hplace
        cases (standing_of_course ⟨hpast, hes, rfl⟩).2 with
        | goesOn _ hcanceled => exact hcanceled
        | gaveUp hother =>
            rw [hplace] at hother
            cases hother
      have hdialed := dialed_of_step hstep hended
      have hlength := hlength hes
      rw [dials_concat, durations_concat, List.length_append,
        List.length_append]
      omega)
    h.run h.quiet
  rw [h.lengths] at hrun
  exact hrun

end Dials

section Failures

/-- The events of a dial that fails, up to where the decision is to come. -/
def failure : List Event := [.proceed, .dial false, .advance]

/-- The events of a session whose dial took some time to fail. -/
def failedSession (lasted : Int) : List Event := failure ++ [.decide lasted]

theorem run_failure (h : Ready r n m) :
    Runs.run step m failure = some { m with place := .lost n } := by
  refine Runs.run_cons.mpr ⟨_, h.proceed, ?_⟩
  have hcanceled : m.canceled = false := h.canceled
  simp only [Runs.run, step, advance?, hcanceled, Option.bind_some,
    Bool.false_eq_true, if_false]

/-- A loop that is ready can dial and fail after any time, and is ready again
unless it gives up. -/
theorem run_failedSession (h : Ready r n m) (lasted : Int) :
    ∃ m', Runs.run step m (failedSession lasted) = some m' ∧
      ∀ k, Retry.afterSession r n lasted = .wait k → Ready r k m' := by
  obtain ⟨m', hm', hready⟩ :=
    run_decide (m := { m with place := .lost n }) rfl h.retry h.canceled lasted
  exact ⟨m', Runs.run_append.mpr ⟨_, run_failure h, hm'⟩, hready⟩

/-- Any sequence of failed dials can take place that the count does not end
earlier. -/
theorem course_of_failures (configured : List Bytes)
    (h : Retry.NoneBefore (Retry.IsOver r) ds) :
    ∃ m, Course configured r ds (opening ++ ds.flatMap failedSession) m ∧
      (¬ Retry.IsOver r ds → Ready r (Retry.losses (Retry.isReset r) ds) m) :=
  course_of_sessions configured run_failedSession
    (fun _ => by simp [failedSession, failure, Event.cancels]) (fun _ => rfl) h

theorem dials_failures (ds : List Int) :
    dials (opening ++ ds.flatMap failedSession) =
      List.replicate ds.length false := by
  induction ds with
  | nil => rfl
  | cons d ds ih => exact congrArg (false :: ·) ih

theorem none_connects (ds : List Int) :
    ∀ c ∈ dials (opening ++ ds.flatMap failedSession), c = false := by
  rw [dials_failures]
  exact fun c hc => List.eq_of_mem_replicate hc

end Failures

section Brief

variable (h : Retry.Brief r limit) (hnumber : 0 < r.number.toInt)
include h hnumber

theorem surrenders_of_brief : Surrenders r limit := by
  intro configured ds hds
  have hshort : ∀ d ∈ ds, Retry.isReset r d = false :=
    fun d hd => h.not_isReset (hds d hd)
  have hbefore := Retry.noneBefore_of_short hnumber hshort
  have hover := Retry.isOver_of_short hshort
  refine ⟨⟨?_, fun hlength => ?_⟩, fun es m hcourse hfailed => ?_⟩
  · rintro ⟨es, m, hcourse, -⟩
    exact hbefore.mp (standing_of_course hcourse).1
  · obtain ⟨m, hcourse, -⟩ :=
      course_of_failures configured (hbefore.mpr hlength)
    exact ⟨_, m, hcourse, none_connects ds⟩
  · have hlength := hbefore.mp (standing_of_course hcourse).1
    have hreturned : ∀ f, m.place = .returned f ↔ f = some (Retry.gaveUp r) ∧
        (ds.length : Int) = r.number.toInt + 1 := by
      intro f
      rw [returned_iff hcourse, hover]
      refine and_congr_right fun _ => ?_
      omega
    refine ⟨?_, hreturned⟩
    -- With the last session allowed the loop has returned, so that there is no
    -- dial without a session.
    rw [length_dials hcourse]
    by_cases hlast : (ds.length : Int) = r.number.toInt + 1
    · rw [(hreturned _).mpr ⟨rfl, hlast⟩]
      exact Int.le_of_eq hlast
    · have hdial := Bool.toNat_le m.place.isDialed
      omega

end Brief

section Long

variable (h : ¬ Retry.Brief r limit)
include h

/-- The second of two dials that take long to fail is one loss and not two. -/
theorem not_countsFailures : ¬ CountsFailures r limit := by
  intro hcounts
  obtain ⟨d, hfails, hreset⟩ := Retry.exists_isReset_of_not_brief h
  have hlong := Retry.noneBefore_of_long hreset 1
  obtain ⟨m, hcourse, hready⟩ := course_of_failures [] hlong.1
  have hready := hready hlong.2
  have hone : Retry.losses (Retry.isReset r) (List.replicate 1 d) = 1 := by
    rw [List.replicate_one, ← List.nil_append [d], Retry.losses_concat,
      hreset, if_pos rfl]
  rw [hone] at hready
  have hlost := Runs.run_append.mpr ⟨m, hcourse.run, run_failure hready⟩
  have hwait : Retry.afterSession r 1 d = .wait 1 := by
    rw [Retry.afterSession, hreset, if_pos rfl]
    refine if_neg ?_
    rintro ⟨hnumber, hover⟩
    have hnumber : 0 < r.number.toInt := Int64.lt_iff_toInt_lt.mp hnumber
    omega
  have hstep : ({ m with place := .lost 1 } : Lifecycle).step (.decide d) =
      some { m with place := .pausing 1 } := by
    simp only [step, hready.retry, hwait]
  obtain ⟨n, hplace, hafter⟩ := hcounts [] _ _ _ d hlost rfl hfails hstep
  obtain rfl : 1 = n := Place.lost.inj hplace
  unfold afterLoss at hafter
  split at hafter
  · cases hafter
  · cases hafter

/-- Dials that take long to fail can go on for ever. -/
theorem not_surrenders (hnumber : 0 < r.number.toInt) :
    ¬ Surrenders r limit := by
  intro hsurrenders
  obtain ⟨d, hfails, hreset⟩ := Retry.exists_isReset_of_not_brief h
  obtain ⟨m, hcourse, -⟩ :=
    course_of_failures []
      (Retry.noneBefore_of_long hreset (r.number.toInt.toNat + 2)).1
  have hlength :=
    (hsurrenders [] _ fun c hc => List.eq_of_mem_replicate hc ▸ hfails).1.mp
      ⟨_, m, hcourse, none_connects _⟩
  rw [List.length_replicate] at hlength
  omega

end Long

/-- Failed dials are counted, each as one more loss, and end a loop that gives
up in time, exactly if none of them can take as long to fail as the time that
is set for connections, in 64 bits. -/
theorem failures_count_iff (r : Config.Retry) (limit : Option Nat) :
    (CountsFailures r limit ↔ Retry.Brief r limit) ∧
      (0 < r.number.toInt → (Surrenders r limit ↔ Retry.Brief r limit)) := by
  refine ⟨⟨fun hcounts => ?_, countsFailures_of_brief⟩, fun hnumber =>
    ⟨fun hsurrenders => ?_, fun h => surrenders_of_brief h hnumber⟩⟩
  · by_contra h
    exact not_countsFailures h hcounts
  · by_contra h
    exact not_surrenders h hnumber hsurrenders

/-- By default a dial is given up long before its session would count as
long. -/
theorem failures_count_by_default :
    CountsFailures ({} : Config).feed.retry
        ({} : Config).connection.websocket.dialLimit? ∧
      Surrenders ({} : Config).feed.retry
          ({} : Config).connection.websocket.dialLimit? := by
  have hbrief :
      Retry.Brief ({} : Config).feed.retry
        ({} : Config).connection.websocket.dialLimit? :=
    Or.inr ⟨10000000000, rfl, by decide⟩
  have hcount :=
    failures_count_iff ({} : Config).feed.retry
      ({} : Config).connection.websocket.dialLimit?
  exact ⟨hcount.1.mpr hbrief, (hcount.2 (by decide)).mpr hbrief⟩

/-- Settings that pass every check, with connections that count as long after
five seconds and dials that are given up after ten. -/
def slowDials : Config :=
  { feed := { retry := { number := 1, resetSec := 5 } } }

/-- With these settings a loop goes on for ever though no dial succeeds: in the
one case dials are given up late, in the other they fail at once and the time
that is set wraps. -/
theorem late_or_never :
    (slowDials.validate = .ok slowDials ∧
      ¬ CountsFailures slowDials.feed.retry
          slowDials.connection.websocket.dialLimit? ∧
      ¬ Surrenders slowDials.feed.retry
          slowDials.connection.websocket.dialLimit?) ∧
    (farReset.validate = .ok farReset ∧
      ¬ CountsFailures farReset.feed.retry (some 0) ∧
      ¬ Surrenders farReset.feed.retry (some 0)) := by
  have hslow :
      ¬ Retry.Brief slowDials.feed.retry
        slowDials.connection.websocket.dialLimit? := by
    rintro (hnever | ⟨t, ht, hlate⟩)
    · revert hnever
      decide
    · cases ht
      revert hlate
      decide
  have hfar : ¬ Retry.Brief farReset.feed.retry (some 0) := by
    rintro (hnever | ⟨t, ht, hlate⟩)
    · revert hnever
      decide
    · cases ht
      revert hlate
      decide
  exact ⟨⟨rfl, not_countsFailures hslow, not_surrenders hslow (by decide)⟩,
    ⟨rfl, not_countsFailures hfar, not_surrenders hfar (by decide)⟩⟩

end Lifecycle
end Feed
end TickRelay
