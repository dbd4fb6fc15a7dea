import TickRelay.Ingest.Buffer
import TickRelay.Proofs.BufferTransit

/-!
# A buffer and its flush loop

A loop flushes a buffer while ticks arrive, and others may flush the buffer as
well. The loop waits until it is woken. Being woken and taking the queue are
two steps, since the flush of the loop has to wait for a flush that is under
way; a trigger that woke the loop is gone by then.

**Algorithm.** `Watch.step` is one event: something that happens to the buffer
as in `Transit`, the loop being woken, or its flush taking the queue. A flush
under way is answered and finished by the same events, whoever started it.
Beside the buffer a watch records for what reason each flush of the loop was
started, and whether the storage was failing at that moment.

**Results.** `move_of_step` lists all that an event can do. `manned_of_run`:
the loop is in its flush only while a batch is in flight. `run_turn` puts the
events of one turn of the loop together again.
-/

namespace TickRelay
namespace Ingest

namespace Buffer

variable {b : Buffer} {ts batch : List Tick}

theorem failing_trim : b.trim.failing = b.failing := by
  unfold trim
  split <;> rfl

theorem trigger_trim : b.trim.trigger = b.trigger := by
  unfold trim
  split <;> rfl

/-- What waits after a cut is the end of what waited before. -/
theorem queue_trim : b.trim.queue <:+ b.queue := by
  unfold trim
  split
  · exact List.drop_suffix _ _
  · exact List.suffix_refl _

theorem failing_append : (b.append ts).failing = b.failing := failing_trim

theorem trigger_append : (b.append ts).trigger = b.trigger := trigger_trim

theorem trigger_restore : (b.restore batch).trigger = b.trigger :=
  trigger_trim (b := { b with queue := batch ++ b.queue })

theorem queue_append : (b.append ts).queue <:+ b.queue ++ ts :=
  queue_trim (b := { b with queue := b.queue ++ ts })

end Buffer

theorem Wake.failing_notice {b : Buffer} {cause : Wake} :
    (cause.notice b).failing = b.failing := by
  cases cause <;> rfl

theorem Wake.queue_notice {b : Buffer} {cause : Wake} :
    (cause.notice b).queue = b.queue := by
  cases cause <;> rfl

namespace Transit

/-- The triggers that are pending or still to be set. -/
def triggers (t : Transit) : Nat := t.buffer.trigger.toNat + t.signals

end Transit

/-- Where the flush loop stands. -/
inductive Post where
  | idle
  /-- Woken, with a flush that has not taken the queue yet. -/
  | due (cause : Wake)
  /-- The batch in flight is its own. -/
  | flushing (cause : Wake)
  | ended
  deriving DecidableEq

namespace Post

/-- The post after a flush for some reason. -/
def after (cause : Wake) : Post := if cause.goesOn then idle else ended

/-- The post after the flush under way, which may be someone else's. -/
def relieved : Post → Post
  | flushing cause => after cause
  | p => p

/-- Whether the loop will wait again. -/
def goesOn : Post → Bool
  | idle => true
  | due cause | flushing cause => cause.goesOn
  | ended => false

variable {p : Post} {cause cause' : Wake}

theorem after_ne_due : after cause ≠ due cause' := by
  unfold after
  split <;> exact Post.noConfusion

theorem after_ne_flushing : after cause ≠ flushing cause' := by
  unfold after
  split <;> exact Post.noConfusion

theorem goesOn_after : (after cause).goesOn = cause.goesOn := by
  unfold after
  cases h : cause.goesOn <;> rfl

theorem goesOn_relieved : p.relieved.goesOn = p.goesOn := by
  cases p with
  | flushing cause => exact goesOn_after
  | _ => rfl

theorem relieved_eq_due : p.relieved = due cause ↔ p = due cause := by
  cases p with
  | flushing cause =>
      exact iff_of_false after_ne_due Post.noConfusion
  | _ => exact Iff.rfl

theorem relieved_ne_flushing : p.relieved ≠ flushing cause := by
  cases p with
  | flushing cause => exact after_ne_flushing
  | _ => exact Post.noConfusion

end Post

/-- A buffer with a flush loop, and a record of what the loop did. -/
structure Watch where
  transit : Transit
  post : Post := .idle
  /-- The flushes that the loop started: the reason, and whether the storage
  was failing. -/
  attempts : List (Wake × Bool) := []
  deriving DecidableEq

namespace Watch

/-- What can happen. -/
inductive Event where
  /-- An arrival, its trigger, a flush that is not the loop's, or the next step
  of a flush. -/
  | traffic (e : Transit.Event)
  /-- The loop is woken. -/
  | wake (cause : Wake)
  /-- The flush of the loop takes the queue. -/
  | attempt
  deriving DecidableEq

/-- The ticks that an event brings. -/
def Event.ticks : Event → List Tick
  | traffic e => e.ticks
  | _ => []

/-- The ticks that arrive in the course of some events. -/
def arrivals (es : List Event) : List Tick := es.flatMap Event.ticks

/-- An empty buffer with the given limits, and a loop that waits. -/
def start (limits : Limits) : Watch := { transit := .start limits }

/-- Whether the storage is marked as failing. -/
def failing (w : Watch) : Bool := w.transit.buffer.failing

/-- The post after an event that is not the loop's own. -/
def postAfter (w : Watch) (e : Transit.Event) : Post :=
  if e = .finish then w.post.relieved else w.post

/-- The loop has started a flush. -/
def attempted (w : Watch) (cause : Wake) : List (Wake × Bool) :=
  w.attempts ++ [(cause, w.failing)]

/-- One event. The loop is woken only while it waits, and by a trigger only if
there is one. -/
def step (w : Watch) : Event → Option Watch
  | .traffic e =>
      (w.transit.step e).map fun transit =>
        { w with transit, post := w.postAfter e }
  | .wake cause =>
    if w.post = .idle ∧ cause.isReady w.transit.buffer then
      let transit := { w.transit with buffer := cause.notice w.transit.buffer }
      some { w with transit, post := .due cause }
    else none
  | .attempt =>
    match w.post with
    | .due cause =>
      (w.transit.step .take).map fun transit =>
        let post :=
          if transit.flight.isSome then .flushing cause else .after cause
        { w with transit, post, attempts := w.attempted cause }
    | _ => none

/-- The watch after some events from an empty buffer. -/
def run (limits : Limits) (es : List Event) : Option Watch :=
  Runs.run step (start limits) es

/-- One event after which the storage is marked as failing. -/
def stepFailing (w : Watch) (e : Event) : Option Watch :=
  (w.step e).filter failing

/-- The ways in which a watch can go on. -/
inductive Move (w : Watch) : Event → Watch → Prop
  | traffic {e : Transit.Event} {t : Transit}
      (hmove : Transit.Move w.transit e t) :
      Move w (.traffic e) { w with transit := t, post := w.postAfter e }
  | wake {cause : Wake} (hpost : w.post = .idle)
      (hready : cause.isReady w.transit.buffer = true) :
      Move w (.wake cause) { w with
        transit := { w.transit with buffer := cause.notice w.transit.buffer }
        post := .due cause }
  | attemptNothing {cause : Wake} (hpost : w.post = .due cause)
      (hflight : w.transit.flight = none)
      (hqueue : w.transit.buffer.queue = []) :
      Move w .attempt { w with
        post := .after cause, attempts := w.attempted cause }
  | attempt {cause : Wake} (hpost : w.post = .due cause)
      (hflight : w.transit.flight = none)
      (hqueue : w.transit.buffer.queue ≠ []) :
      Move w .attempt { w with
        transit := { w.transit with
          buffer := { w.transit.buffer with queue := [] }
          flight := some (.committing w.transit.buffer.queue) }
        post := .flushing cause
        attempts := w.attempted cause }

variable {w u : Watch} {e : Event}

/-- Every event is one of the moves. -/
theorem move_of_step (h : w.step e = some u) : Move w e u := by
  cases e with
  | traffic e =>
      obtain ⟨t, ht, rfl⟩ := Option.map_eq_some_iff.mp h
      exact .traffic (Transit.move_of_step ht)
  | wake cause =>
      simp only [step] at h
      split at h
      case isTrue hready =>
        cases h
        exact .wake hready.1 hready.2
      case isFalse => cases h
  | attempt =>
      simp only [step] at h
      split at h
      case h_1 cause hpost =>
        obtain ⟨t, ht, rfl⟩ := Option.map_eq_some_iff.mp h
        cases Transit.move_of_step ht with
        | takeNothing hflight hqueue =>
            simp only [hflight, Option.isSome_none,
              Bool.false_eq_true, if_false]
            exact .attemptNothing hpost hflight hqueue
        | take hflight hqueue => exact .attempt hpost hflight hqueue
      case h_2 => cases h

/-- Every move can be made. -/
theorem step_of_move (h : Move w e u) : w.step e = some u := by
  cases h with
  | traffic hmove =>
      simp only [step, Transit.step_of_move hmove, Option.map_some]
  | wake hpost hready => exact if_pos ⟨hpost, hready⟩
  | attemptNothing hpost hflight hqueue =>
      have htake := Transit.step_of_move (.takeNothing hflight hqueue)
      simp only [step, hpost, htake, Option.map_some, hflight,
        Option.isSome_none, Bool.false_eq_true, if_false]
  | attempt hpost hflight hqueue =>
      have htake := Transit.step_of_move (.take hflight hqueue)
      simp only [step, hpost, htake, Option.map_some,
        Option.isSome_some, if_true]

theorem stepFailing_eq_some :
    w.stepFailing e = some u ↔ w.step e = some u ∧ u.failing = true := by
  exact Option.filter_eq_some_iff

/-- The loop is in its flush only while a batch is in flight. -/
def Manned (w : Watch) : Prop :=
  ∀ cause, w.post = .flushing cause → w.transit.flight ≠ none

theorem manned_of_move (h : w.Manned) (hmove : Move w e u) : u.Manned := by
  intro cause hpost
  cases hmove with
  | @traffic e t hmove =>
      by_cases he : e = .finish
      · rw [postAfter, if_pos he] at hpost
        exact absurd hpost Post.relieved_ne_flushing
      · rw [postAfter, if_neg he] at hpost
        have hflight := h cause hpost
        cases hmove with
        | takeNothing hnone hqueue => exact absurd hnone hflight
        | take hnone hqueue => exact absurd hnone hflight
        | accept | refuse => exact Option.some_ne_none _
        | count | putBack => exact absurd rfl he
        | nothing | arrive | signal => exact hflight
  | wake => cases hpost
  | attemptNothing => exact absurd hpost Post.after_ne_flushing
  | attempt => exact Option.some_ne_none _

theorem manned_of_run {limits : Limits} {es : List Event}
    (h : run limits es = some w) : w.Manned :=
  Runs.run_invariant
    (fun _ _ _ hw hstep => manned_of_move hw (move_of_step hstep))
    (fun _ hpost => Post.noConfusion hpost) h

/-- The events of a turn of the loop that nothing interrupts. -/
def turn (cause : Wake) (outcome : Option Fault) : List Event :=
  [.wake cause, .attempt, .traffic (.answer outcome.isNone), .traffic .finish]

/-- A turn that nothing interrupts is a flush of the buffer, after the loop has
taken notice of what woke it. -/
theorem run_turn {cause : Wake} (storage : Bytes) (outcome : Option Fault)
    (hpost : w.post = .idle) (hready : cause.isReady w.transit.buffer = true)
    (hflight : w.transit.flight = none)
    (hqueue : w.transit.buffer.queue ≠ []) :
    ∃ u, Runs.run step w (turn cause outcome) = some u ∧
      u.post = .after cause ∧
        u.attempts = w.attempted cause ∧
        u.transit.buffer =
          ((cause.notice w.transit.buffer).flush storage id outcome).1 := by
  cases outcome with
  | none =>
      simp [turn, Runs.run, step, hpost, hready, Transit.step, hflight,
        Buffer.take, Wake.queue_notice, hqueue, postAfter, attempted, failing,
        Wake.failing_notice, Post.relieved, Buffer.flush]
  | some cause =>
      simp [turn, Runs.run, step, hpost, hready, Transit.step, hflight,
        Buffer.take, Wake.queue_notice, hqueue, postAfter, attempted, failing,
        Wake.failing_notice, Post.relieved, Buffer.flush]

end Watch
end Ingest
end TickRelay
