import TickRelay.Ingest.Buffer
import TickRelay.Proofs.Runs

/-!
# A buffer under arrivals and flushes

Ticks arrive at a buffer while its queue is flushed. One flush is under way at
a time; it takes the queue, hands it to the storage as one batch, and after the
answer either counts the batch or puts it back. Ticks may arrive between any
two of these steps.

**Algorithm.** `Transit.step` is one event: an arrival, the trigger that
follows it, or a step of the flush. What a flush does to the buffer it does
through `take`, `settle` and `restore`, and an arrival through `append` and
`signal`. Beside the buffer a transit records what arrived, what the storage
took and what was counted.

**Results.** `trim_eq` says what a cap leaves of a queue. `move_of_step` lists
all that an event can do, so that a property is kept by every event if it is
kept by every `Move`. `arrived_of_run` says that the record of arrivals is the
one that the events spell. `run_addBatch` and `run_flush` put the events of one
operation together again.
-/

namespace TickRelay
namespace Ingest

namespace Buffer

/-- The ticks of a queue that are beyond the cap. -/
def beyondCap (b : Buffer) : Nat :=
  b.queue.length - b.limits.maxBuffered.toInt.toNat

/-- A cap that is not negative drops the oldest ticks beyond it, and counts
them. -/
theorem trim_eq {b : Buffer} (h : 0 ≤ b.limits.maxBuffered) :
    b.trim = { b with
      queue := b.queue.drop b.beyondCap,
      dropped := b.dropped + b.beyondCap } := by
  unfold trim
  rw [Capacity.surplus?_of_nonneg h]
  rfl

theorem beyondCap_le (b : Buffer) : b.beyondCap ≤ b.queue.length :=
  Nat.sub_le _ _

end Buffer

/-- A flush that took a batch from the queue. -/
inductive Flight where
  /-- The storage has not answered yet. -/
  | committing (batch : List Tick)
  /-- The storage took the batch, which is not counted yet. -/
  | accepted (batch : List Tick)
  /-- The storage refused the batch, which is not put back yet. -/
  | refused (batch : List Tick)
  deriving DecidableEq

namespace Flight

/-- The batch in flight. -/
def batch : Flight → List Tick
  | committing batch | accepted batch | refused batch => batch

/-- The batch as the storage has it, if it took it. -/
def taken : Flight → List (List Tick)
  | accepted batch => [batch]
  | committing _ | refused _ => []

@[simp] theorem batch_committing (batch : List Tick) :
    (committing batch).batch = batch := rfl

@[simp] theorem batch_accepted (batch : List Tick) :
    (accepted batch).batch = batch := rfl

@[simp] theorem batch_refused (batch : List Tick) :
    (refused batch).batch = batch := rfl

@[simp] theorem taken_committing (batch : List Tick) :
    (committing batch).taken = [] := rfl

@[simp] theorem taken_accepted (batch : List Tick) :
    (accepted batch).taken = [batch] := rfl

@[simp] theorem taken_refused (batch : List Tick) :
    (refused batch).taken = [] := rfl

end Flight

/-- A buffer, the flush that is under way, and a record of what happened. -/
structure Transit where
  buffer : Buffer
  flight : Option Flight := none
  /-- Arrivals that have still to set the trigger. -/
  signals : Nat := 0
  /-- The ticks that arrived, in order. -/
  arrived : List Tick := []
  /-- The batches that the storage took, in order. -/
  stored : List (List Tick) := []
  /-- The batches that were counted as flushed, in order. -/
  counted : List (List Tick) := []
  deriving DecidableEq

namespace Transit

/-- What can happen. -/
inductive Event where
  /-- Ticks arrive, one or several at once. -/
  | arrive (ts : List Tick)
  /-- An arrival that found the queue long enough sets the trigger. -/
  | signal
  /-- A flush starts and takes the queue. -/
  | take
  /-- The storage takes or refuses the batch. -/
  | answer (accepted : Bool)
  /-- The flush counts the batch, or puts it back. -/
  | finish
  deriving DecidableEq

/-- The ticks that an event brings. -/
def Event.ticks : Event → List Tick
  | arrive ts => ts
  | _ => []

/-- The ticks that arrive in the course of some events. -/
def arrivals (es : List Event) : List Tick := es.flatMap Event.ticks

/-- An empty buffer with the given limits. -/
def start (limits : Limits) : Transit := { buffer := { limits } }

/-- The batch in flight; empty when no flush is under way. -/
def inFlight (t : Transit) : List Tick := (t.flight.map Flight.batch).getD []

/-- The batch in flight as the storage has it. -/
def takenInFlight (t : Transit) : List (List Tick) :=
  (t.flight.map Flight.taken).getD []

/-- One event. A flush waits until no other one is under way, and its steps
keep their order. -/
def step (t : Transit) : Event → Option Transit
  | .arrive ts =>
    if ts.isEmpty then some t
    else
      let buffer := t.buffer.append ts
      let signals := if buffer.wantsCommit then t.signals + 1 else t.signals
      some { t with buffer, signals, arrived := t.arrived ++ ts }
  | .signal =>
    if t.signals = 0 then none
    else some { t with buffer := t.buffer.signal, signals := t.signals - 1 }
  | .take =>
    match t.flight with
    | some _ => none
    | none =>
      let (buffer, batch) := t.buffer.take
      -- An empty batch is not handed to the storage: the flush is over.
      if batch.isEmpty then some { t with buffer }
      else some { t with buffer, flight := some (.committing batch) }
  | .answer accepted =>
    match t.flight with
    | some (.committing batch) =>
      if accepted then some { t with
        flight := some (.accepted batch), stored := t.stored ++ [batch] }
      else some { t with flight := some (.refused batch) }
    | _ => none
  | .finish =>
    match t.flight with
    | some (.accepted batch) =>
      some { t with
        buffer := t.buffer.settle batch,
        flight := none,
        counted := t.counted ++ [batch] }
    | some (.refused batch) =>
        some { t with buffer := t.buffer.restore batch, flight := none }
    | _ => none

/-- The transit after some events from an empty buffer. -/
def run (limits : Limits) (es : List Event) : Option Transit :=
  Runs.run step (start limits) es

/-- The ways in which a transit can go on. -/
inductive Move (t : Transit) : Event → Transit → Prop
  | nothing : Move t (.arrive []) t
  | arrive {ts : List Tick} (hts : ts ≠ []) :
      Move t (.arrive ts) { t with
        buffer := t.buffer.append ts
        signals :=
          if (t.buffer.append ts).wantsCommit then t.signals + 1 else t.signals
        arrived := t.arrived ++ ts }
  | signal (hs : t.signals ≠ 0) :
      Move t .signal { t with
        buffer := t.buffer.signal, signals := t.signals - 1 }
  | takeNothing (hf : t.flight = none) (hq : t.buffer.queue = []) :
      Move t .take t
  | take (hf : t.flight = none) (hq : t.buffer.queue ≠ []) :
      Move t .take { t with
        buffer := { t.buffer with queue := [] }
        flight := some (.committing t.buffer.queue) }
  | accept {batch : List Tick} (hf : t.flight = some (.committing batch)) :
      Move t (.answer true) { t with
        flight := some (.accepted batch)
        stored := t.stored ++ [batch] }
  | refuse {batch : List Tick} (hf : t.flight = some (.committing batch)) :
      Move t (.answer false) { t with flight := some (.refused batch) }
  | count {batch : List Tick} (hf : t.flight = some (.accepted batch)) :
      Move t .finish { t with
        buffer := t.buffer.settle batch
        flight := none
        counted := t.counted ++ [batch] }
  | putBack {batch : List Tick} (hf : t.flight = some (.refused batch)) :
      Move t .finish { t with
        buffer := t.buffer.restore batch, flight := none }

variable {t u : Transit} {e : Event}

/-- Every event is one of the moves. -/
theorem move_of_step (h : t.step e = some u) : Move t e u := by
  cases e with
  | arrive ts =>
      cases ts with
      | nil => cases h; exact .nothing
      | cons a ts => cases h; exact .arrive (List.cons_ne_nil a ts)
  | signal =>
      simp only [step] at h
      split at h
      · cases h
      · rename_i hs
        cases h
        exact .signal hs
  | take =>
      simp only [step] at h
      cases hf : t.flight with
      | some f => simp [hf] at h
      | none =>
          simp only [hf, Buffer.take] at h
          by_cases hq : t.buffer.queue = []
          · have hu : t = u := by
              obtain ⟨⟨_, _⟩⟩ := t
              simp_all
            exact hu ▸ .takeNothing hf hq
          · rw [if_neg (by simpa using hq)] at h
            cases h
            exact .take hf hq
  | answer accepted =>
      simp only [step] at h
      split at h
      · rename_i batch hf
        cases accepted with
        | true => cases h; exact .accept hf
        | false => cases h; exact .refuse hf
      · cases h
  | finish =>
      simp only [step] at h
      split at h
      · rename_i batch hf
        cases h
        exact .count hf
      · rename_i batch hf
        cases h
        exact .putBack hf
      · cases h

/-- Every move can be made. -/
theorem step_of_move (h : Move t e u) : t.step e = some u := by
  cases h with
  | nothing => rfl
  | @arrive ts hts => exact if_neg (by simpa using hts)
  | signal hs => exact if_neg hs
  | takeNothing hf hq =>
      obtain ⟨⟨_, _⟩⟩ := t
      simp_all [step, Buffer.take]
  | take hf hq => simp [step, hf, hq, Buffer.take]
  | accept hf | refuse hf | count hf | putBack hf => simp [step, hf]

theorem move_arrived (h : Move t e u) : u.arrived = t.arrived ++ e.ticks := by
  cases h <;> simp [Event.ticks]

/-- The record of arrivals is what the events bring. -/
theorem arrived_of_run {s : Transit} {es : List Event}
    (h : Runs.run step s es = some t) :
    t.arrived = s.arrived ++ arrivals es := by
  induction es generalizing s with
  | nil => cases h; simp [arrivals]
  | cons e es ih =>
      obtain ⟨m, he, hm⟩ := Runs.run_cons.mp h
      rw [ih hm, move_arrived (move_of_step he), List.append_assoc]
      rfl

/-- The events of an arrival: its trigger follows if the queue asks for a
commit. -/
def arrival (ts : List Tick) (b : Buffer) : List Event :=
  if !ts.isEmpty && (b.append ts).wantsCommit then [.arrive ts, .signal]
  else [.arrive ts]

/-- An arrival that nothing interrupts is `addBatch`. -/
theorem run_addBatch (ts : List Tick) (t : Transit) :
    Runs.run step t (arrival ts t.buffer) = some { t with
      buffer := t.buffer.addBatch ts, arrived := t.arrived ++ ts } := by
  cases ts with
  | nil => simp [arrival, Runs.run, step, Buffer.addBatch]
  | cons a ts =>
      by_cases hw : (t.buffer.append (a :: ts)).wantsCommit = true
      · simp [arrival, Runs.run, step, Buffer.addBatch, hw]
      · simp [arrival, Runs.run, step, Buffer.addBatch, hw]

/-- A flush is `flush`, where the arrivals are whatever happened between taking
the queue and the answer of the storage. -/
theorem run_flush {m : Transit} {during : List Event} {batch : List Tick}
    (storage : Bytes) (outcome : Option Fault)
    (hbatch : t.buffer.queue = batch) (hne : batch ≠ [])
    (hduring : Runs.run step t (.take :: during) = some m)
    (hflight : m.flight = some (.committing batch)) :
    ∃ u, Runs.run step t (.take :: during ++
        [.answer outcome.isNone, .finish]) = some u ∧
      u.buffer = (t.buffer.flush storage (fun _ => m.buffer) outcome).1 := by
  cases outcome with
  | none =>
      refine ⟨{ m with
        buffer := m.buffer.settle batch
        flight := none
        stored := m.stored ++ [batch]
        counted := m.counted ++ [batch] }, ?_, ?_⟩
      · refine Runs.run_append.mpr ⟨m, hduring, ?_⟩
        simp [Runs.run, step, hflight]
      · simp [Buffer.flush, Buffer.take, hbatch, hne]
  | some cause =>
      refine ⟨{ m with
        buffer := m.buffer.restore batch, flight := none }, ?_, ?_⟩
      · refine Runs.run_append.mpr ⟨m, hduring, ?_⟩
        simp [Runs.run, step, hflight]
      · simp [Buffer.flush, Buffer.take, hbatch, hne]

end Transit
end Ingest
end TickRelay
