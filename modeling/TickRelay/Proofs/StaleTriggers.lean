import TickRelay.Proofs.BufferConservation
import TickRelay.Proofs.FlushLoop

/-!
# Triggers that outlive the failure of the storage

While the storage is failing an arrival sets no trigger, so that the loop tries
again only at its interval. But a trigger may be on its way already when a
commit fails: it is pending, an arrival has decided to set it and not done so
yet, or it has woken the loop, whose flush has not started. Nothing takes such
a trigger back, and the loop starts a flush because of it.

**Algorithm.** `outstanding` counts the triggers that are on their way,
`heeded` the flushes that the loop started because of a trigger while the
storage was failing. As long as the storage is failing, each such flush uses up
an outstanding trigger and none is added.

**Results.** `heeded_add_outstanding_le` says this of one event.
`heeds_trigger_iff` says it of all that can happen until a commit succeeds, and
that the loop heeds a trigger in some of it exactly if one is outstanding and
the loop comes to it. `not_always_ignored` is a run in which it does.
-/

namespace TickRelay
namespace Ingest

namespace Transit

variable {t t' : Transit} {e : Event}

/-- An arrival at a failing storage sets no trigger, and no other event adds
one. -/
theorem triggers_le_of_failing (hfailing : t.buffer.failing = true)
    (hmove : Move t e t') : t'.triggers ≤ t.triggers := by
  cases hmove with
  | @arrive ts hts =>
      have hquiet : (t.buffer.append ts).wantsCommit = false := by
        rw [Buffer.wantsCommit, Buffer.failing_append, hfailing,
          Bool.not_true, Bool.and_false]
      simp only [triggers, Buffer.trigger_append, hquiet,
        Bool.false_eq_true, if_false]
      exact Nat.le_refl _
  | signal hs =>
      have hset : t.buffer.signal.trigger.toNat = 1 := rfl
      simp only [triggers, hset]
      omega
  | putBack hf =>
      simp only [triggers, Buffer.trigger_restore]
      exact Nat.le_refl _
  | nothing | takeNothing | take | accept | refuse | count =>
      exact Nat.le_refl _

end Transit

namespace Watch

variable {w u : Watch} {e : Event}

/-- The triggers that may still make the loop start a flush. -/
def outstanding (w : Watch) : Nat :=
  w.transit.triggers + (decide (w.post = .due .trigger)).toNat

/-- The flushes that the loop started because of a trigger while the storage
was failing. -/
def heeded (w : Watch) : Nat := w.attempts.count (.trigger, true)

theorem count_attempted (hfailing : w.failing = true) (cause : Wake) :
    (w.attempted cause).count (.trigger, true) =
      w.heeded + (decide (cause = .trigger)).toNat := by
  rw [attempted, List.count_append, hfailing, heeded]
  cases cause <;> rfl

/-- A flush that the loop starts because of a trigger uses it up. -/
theorem heeded_add_outstanding_of_attempt (hfailing : w.failing = true)
    {cause : Wake} (hpost : w.post = .due cause)
    (hattempts : u.attempts = w.attempted cause)
    (hnext : u.post ≠ .due .trigger)
    (htriggers : u.transit.triggers = w.transit.triggers) :
    u.heeded + u.outstanding ≤ w.heeded + w.outstanding := by
  have hdue : decide (w.post = .due .trigger) = decide (cause = .trigger) := by
    rw [hpost]
    cases cause <;> rfl
  rw [heeded, hattempts, count_attempted hfailing, outstanding, outstanding,
    htriggers, hdue, decide_eq_false hnext, Bool.toNat_false]
  omega

/-- While the storage is failing, a trigger that the loop heeds was outstanding
before. -/
theorem heeded_add_outstanding_le (hfailing : w.failing = true)
    (hmove : Move w e u) :
    u.heeded + u.outstanding ≤ w.heeded + w.outstanding := by
  cases hmove with
  | @traffic e t hmove =>
      have htriggers := Transit.triggers_le_of_failing hfailing hmove
      have hpost : w.postAfter e = .due .trigger ↔ w.post = .due .trigger := by
        unfold postAfter
        split
        · exact Post.relieved_eq_due
        · exact Iff.rfl
      simp only [outstanding, heeded, hpost]
      omega
  | @wake cause hpost hready =>
      have hidle : (decide (w.post = .due .trigger)).toNat = 0 := by
        rw [hpost]; rfl
      simp only [outstanding, heeded, hidle]
      cases cause with
      | trigger =>
          have hset : w.transit.buffer.trigger = true := hready
          simp only [Transit.triggers, Wake.notice, Buffer.clearTrigger, hset,
            decide_true, Bool.toNat_true, Bool.toNat_false]
          omega
      | interval | cancel => exact Nat.le_refl _
  | attemptNothing hpost hflight hqueue =>
      exact heeded_add_outstanding_of_attempt hfailing hpost rfl
        Post.after_ne_due rfl
  | attempt hpost hflight hqueue =>
      exact heeded_add_outstanding_of_attempt hfailing hpost rfl
        Post.noConfusion rfl

/-- Until a commit succeeds the loop heeds no more triggers than were
outstanding. -/
theorem heeded_le_of_run (hfailing : w.failing = true) {fs : List Event}
    (h : Runs.run stepFailing w fs = some u) :
    u.heeded + u.outstanding ≤ w.heeded + w.outstanding := by
  have hboth : u.failing = true ∧
      u.heeded + u.outstanding ≤ w.heeded + w.outstanding := by
    refine Runs.run_invariant
      (P := fun m => m.failing = true ∧
        m.heeded + m.outstanding ≤ w.heeded + w.outstanding)
      (fun s e t hs hstep => ?_) ⟨hfailing, Nat.le_refl _⟩ h
    obtain ⟨hstep, ht⟩ := stepFailing_eq_some.mp hstep
    have hle := heeded_add_outstanding_le hs.1 (move_of_step hstep)
    exact ⟨ht, Nat.le_trans hle hs.2⟩
  exact hboth.2

/-- A loop that does not wait again heeds no trigger. -/
theorem heeded_of_move (hpost : w.post.goesOn = false) (hmove : Move w e u) :
    u.post.goesOn = false ∧ u.heeded = w.heeded := by
  have hcount : ∀ {cause : Wake}, w.post = .due cause → cause.goesOn = false ∧
      (w.attempted cause).count (.trigger, true) = w.heeded := by
    intro cause hdue
    rw [hdue] at hpost
    cases cause with
    | cancel =>
        refine ⟨rfl, ?_⟩
        rw [attempted, List.count_append]
        rfl
    | interval | trigger => cases hpost
  cases hmove with
  | @traffic e t hmove =>
      refine ⟨?_, rfl⟩
      show (w.postAfter e).goesOn = false
      unfold postAfter
      split
      · rw [Post.goesOn_relieved, hpost]
      · exact hpost
  | wake hidle hready =>
      rw [hidle] at hpost
      cases hpost
  | attemptNothing hdue hflight hqueue =>
      exact ⟨Post.goesOn_after.trans (hcount hdue).1, (hcount hdue).2⟩
  | attempt hdue hflight hqueue => exact hcount hdue

theorem heeded_of_run (hpost : w.post.goesOn = false) {fs : List Event}
    (h : Runs.run stepFailing w fs = some u) : u.heeded = w.heeded := by
  have hboth : u.post.goesOn = false ∧ u.heeded = w.heeded := by
    refine Runs.run_invariant
      (P := fun m => m.post.goesOn = false ∧ m.heeded = w.heeded)
      (fun s e t hs hstep => ?_) ⟨hpost, rfl⟩ h
    obtain ⟨hnext, hheeded⟩ :=
      heeded_of_move hs.1 (move_of_step (stepFailing_eq_some.mp hstep).1)
    exact ⟨hnext, hheeded.trans hs.2⟩
  exact hboth.2

/-- The loop can heed a trigger before a commit succeeds. -/
def MayHeed (w : Watch) : Prop :=
  ∃ fs u, Runs.run stepFailing w fs = some u ∧ w.heeded < u.heeded

theorem MayHeed.of_move {m : Watch} (hmove : Move w e m)
    (hfailing : m.failing = true) (hheeded : w.heeded ≤ m.heeded)
    (h : m.MayHeed) : w.MayHeed := by
  obtain ⟨fs, u, hrun, hlt⟩ := h
  have hstep : w.stepFailing e = some m :=
    stepFailing_eq_some.mpr ⟨step_of_move hmove, hfailing⟩
  exact ⟨e :: fs, u, Runs.run_cons.mpr ⟨m, hstep, hrun⟩,
    Nat.lt_of_le_of_lt hheeded hlt⟩

theorem mayHeed_of_move (hmove : Move w e u) (hfailing : u.failing = true)
    (hlt : w.heeded < u.heeded) : w.MayHeed := by
  have hstep : w.stepFailing e = some u :=
    stepFailing_eq_some.mpr ⟨step_of_move hmove, hfailing⟩
  exact ⟨[e], u, Runs.run_cons.mpr ⟨u, hstep, rfl⟩, hlt⟩

theorem mayHeed_of_due (hfailing : w.failing = true)
    (hflight : w.transit.flight = none) (hpost : w.post = .due .trigger) :
    w.MayHeed := by
  have hone : w.heeded < (w.attempted .trigger).count (.trigger, true) := by
    rw [count_attempted hfailing]
    exact Nat.lt_succ_self _
  by_cases hqueue : w.transit.buffer.queue = []
  · exact mayHeed_of_move (.attemptNothing hpost hflight hqueue) hfailing hone
  · exact mayHeed_of_move (.attempt hpost hflight hqueue) hfailing hone

theorem mayHeed_of_idle (hfailing : w.failing = true)
    (hflight : w.transit.flight = none) (hpost : w.post = .idle)
    (htriggers : 0 < w.transit.triggers) : w.MayHeed := by
  have hpending : ∀ {m : Watch}, m.failing = true → m.transit.flight = none →
      m.post = .idle → m.transit.buffer.trigger = true → m.MayHeed := by
    intro m hfailing hflight hpost htrigger
    have hwake : Move m (.wake .trigger) _ := .wake hpost htrigger
    exact .of_move hwake hfailing (Nat.le_refl _)
      (mayHeed_of_due hfailing hflight rfl)
  cases htrigger : w.transit.buffer.trigger with
  | true => exact hpending hfailing hflight hpost htrigger
  | false =>
      have hsignals : w.transit.signals ≠ 0 := by
        rw [Transit.triggers, htrigger] at htriggers
        exact Nat.pos_iff_ne_zero.mp (by simpa using htriggers)
      exact .of_move (.traffic (.signal hsignals)) hfailing (Nat.le_refl _)
        (hpending hfailing hflight hpost rfl)

theorem mayHeed_of_goesOn (hmanned : w.Manned) (hfailing : w.failing = true)
    (hflight : w.transit.flight = none) (hpost : w.post.goesOn = true)
    (htriggers : 0 < w.transit.triggers) : w.MayHeed := by
  cases hcase : w.post with
  | idle => exact mayHeed_of_idle hfailing hflight hcase htriggers
  | flushing cause => exact absurd hflight (hmanned cause hcase)
  | ended =>
      rw [hcase] at hpost
      cases hpost
  | due cause =>
      cases cause with
      | trigger => exact mayHeed_of_due hfailing hflight hcase
      | cancel =>
          rw [hcase] at hpost
          cases hpost
      | interval =>
          -- The storage refuses what the loop is about to flush, and the loop
          -- waits again.
          have hsame :
              (w.attempted .interval).count (.trigger, true) = w.heeded :=
            count_attempted hfailing .interval
          by_cases hqueue : w.transit.buffer.queue = []
          · exact .of_move (.attemptNothing hcase hflight hqueue) hfailing
              (Nat.le_of_eq hsame.symm)
              (mayHeed_of_idle hfailing hflight rfl htriggers)
          · refine .of_move (.attempt hcase hflight hqueue) hfailing
              (Nat.le_of_eq hsame.symm) ?_
            refine .of_move (.traffic (.refuse rfl)) hfailing
              (Nat.le_refl _) ?_
            refine .of_move (.traffic (.putBack rfl)) rfl (Nat.le_refl _) ?_
            refine mayHeed_of_idle rfl rfl rfl ?_
            rwa [Transit.triggers, Buffer.trigger_restore]

/-- **Outstanding triggers are heeded while the storage is failing.** From a
state in which the storage is failing and no flush is under way, such as the
one after a failed commit, whatever happens until a commit succeeds: the
flushes that the loop starts because of a trigger are no more than the triggers
that were outstanding. There may be one exactly if a trigger has woken the loop
already, or if one is pending or about to be set and the loop waits again. -/
theorem heeds_trigger_iff {limits : Limits} {es : List Event}
    (h : run limits es = some w) (hfailing : w.failing = true)
    (hflight : w.transit.flight = none) :
    (∀ fs u, Runs.run stepFailing w fs = some u →
      u.heeded + u.outstanding ≤ w.heeded + w.outstanding) ∧
    (w.MayHeed ↔ w.post = .due .trigger ∨
      0 < w.transit.triggers ∧ w.post.goesOn = true) := by
  refine ⟨fun fs u hrun => heeded_le_of_run hfailing hrun, ?_, ?_⟩
  · rintro ⟨fs, u, hrun, hlt⟩
    have hle := heeded_le_of_run hfailing hrun
    by_cases hdue : w.post = .due .trigger
    · exact Or.inl hdue
    · refine Or.inr ⟨?_, ?_⟩
      · rw [outstanding, outstanding, decide_eq_false hdue,
          Bool.toNat_false] at hle
        omega
      · cases hgoes : w.post.goesOn with
        | true => rfl
        | false =>
            have hsame := heeded_of_run hgoes hrun
            omega
  · rintro (hdue | ⟨htriggers, hgoes⟩)
    · exact mayHeed_of_due hfailing hflight hdue
    · exact mayHeed_of_goesOn (manned_of_run h) hfailing
        hflight hgoes htriggers

/-- A tick arrives and sets the trigger, and then the interval is over and the
commit fails. -/
def failedAtInterval : List Event :=
  [.traffic (.arrive [{ symbol := [1] }]), .traffic .signal,
    .wake .interval, .attempt,
    .traffic (.answer false), .traffic .finish]

/-- The trigger of that tick is outstanding, and the loop may heed it, once. -/
theorem heeds_trigger_of_failedAtInterval :
    ∃ w, run (App.limits Transit.roomForTwo) failedAtInterval = some w ∧
      w.failing = true ∧ w.transit.flight = none ∧ w.MayHeed ∧
      ∀ fs u, Runs.run stepFailing w fs = some u → u.heeded ≤ 1 := by
  have hseen :
      (run (App.limits Transit.roomForTwo) failedAtInterval).map (fun w =>
        (w.failing, w.transit.flight, w.post, w.heeded, w.outstanding,
          w.transit.triggers)) =
      some (true, none, .idle, 0, 1, 1) := rfl
  obtain ⟨w, hw, hfields⟩ := Option.map_eq_some_iff.mp hseen
  simp only [Prod.mk.injEq] at hfields
  obtain ⟨hfailing, hflight, hpost, hheeded, houtstanding, htriggers⟩ :=
    hfields
  obtain ⟨hbound, hiff⟩ := heeds_trigger_iff hw hfailing hflight
  refine ⟨w, hw, hfailing, hflight, hiff.mpr (Or.inr ⟨?_, ?_⟩),
    fun fs u hrun => ?_⟩
  · rw [htriggers]
    exact Nat.one_pos
  · rw [hpost]
    rfl
  · have hle := hbound fs u hrun
    omega

/-- Not every flush that the loop starts because of a trigger finds the storage
in order. -/
theorem not_always_ignored :
    ¬ ∀ (c valid : Config) (es : List Event) (w : Watch),
      c.validate = .ok valid →
      run (App.limits valid) es = some w → (.trigger, true) ∉ w.attempts := by
  intro hall
  have hc : Transit.roomForTwo.validate = .ok Transit.roomForTwo := rfl
  have hseen : (run (App.limits Transit.roomForTwo)
      (failedAtInterval ++ [.wake .trigger, .attempt])).map (·.attempts) =
        some [(.interval, false), (.trigger, true)] := rfl
  obtain ⟨w, hw, hattempts⟩ := Option.map_eq_some_iff.mp hseen
  refine hall _ _ _ w hc hw ?_
  rw [hattempts]
  exact List.mem_cons_of_mem _ (List.mem_singleton_self _)

end Watch
end Ingest
end TickRelay
