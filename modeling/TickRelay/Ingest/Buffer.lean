import TickRelay.Fault
import TickRelay.Tick

/-!
# Ticks on their way to a storage

Ticks wait in a queue until they are committed in one batch. A batch that fails
goes back to the front of the queue. The queue is capped, and beyond the cap
the oldest ticks are dropped. When the queue is long enough a trigger is set,
unless the storage is failing.

**Algorithm.** Every operation is a sequence of steps that each happen at once:
`append` and then `signal` for arrivals; `take`, the commit itself, and
`restore` or `settle` for a flush. Other steps may happen in between.

A loop waits for its interval, for the trigger of its buffer or for the end,
and flushes each time. Taking notice of the trigger clears it. The last flush
happens at the end.

**Results.** `add`, `addBatch` and `flush` are the operations without
interruption, apart from what arrives while a commit is under way. `Wake` is
what wakes the loop.
-/

namespace TickRelay
namespace Ingest

/-- When to commit, and how many ticks may wait. -/
structure Limits where
  commitBuffer : Int64
  maxBuffered : Int64
  deriving DecidableEq

namespace Limits

/-- Whether a queue of some length asks for a commit. -/
def isFull (l : Limits) (length : Nat) : Bool := l.commitBuffer.toInt ≤ length

/-- The ticks that memory has room for: each takes 80 bytes, and addresses have
48 bits. -/
def room : Nat := Nat.pow 2 48 / 80

/-- Whether there can be a queue with room for one commit. -/
def hasRoom (l : Limits) : Bool :=
  0 ≤ l.commitBuffer && l.commitBuffer.toInt ≤ (room : Int)

end Limits

/-- The waiting ticks, oldest first, and what happened so far. -/
structure Buffer where
  limits : Limits
  queue : List Tick := []
  failing : Bool := false
  trigger : Bool := false
  dropped : Nat := 0
  flushed : Nat := 0
  /-- Whether more ticks had to be dropped than there were, after which nothing
  can be done. -/
  isBroken : Bool := false
  deriving DecidableEq

namespace Buffer

/-- An empty buffer, if there can be one. -/
def create? (limits : Limits) : Option Buffer :=
  if limits.hasRoom then some { limits } else none

/-- Drops the oldest ticks beyond the cap. -/
def trim (b : Buffer) : Buffer :=
  match Capacity.surplus? b.limits.maxBuffered b.queue.length with
  | some n => { b with queue := b.queue.drop n, dropped := b.dropped + n }
  | none => { b with isBroken := true }

/-- Arrivals join the queue. -/
def append (ts : List Tick) (b : Buffer) : Buffer :=
  ({ b with queue := b.queue ++ ts } : Buffer).trim

/-- Whether the queue asks for a commit. -/
def wantsCommit (b : Buffer) : Bool :=
  b.limits.isFull b.queue.length && !b.failing

/-- Sets the trigger. -/
def signal (b : Buffer) : Buffer := { b with trigger := true }

/-- A batch arrives; nothing happens for an empty one. -/
def addBatch (ts : List Tick) (b : Buffer) : Buffer :=
  if ts.isEmpty then b
  else
    let b := b.append ts
    if b.wantsCommit then b.signal else b

/-- A tick arrives. -/
def add (t : Tick) (b : Buffer) : Buffer := b.addBatch [t]

/-- Takes the whole queue for a commit. -/
def take (b : Buffer) : Buffer × List Tick := ({ b with queue := [] }, b.queue)

/-- A commit failed: its batch goes back to the front. -/
def restore (batch : List Tick) (b : Buffer) : Buffer :=
  { ({ b with queue := batch ++ b.queue } : Buffer).trim with failing := true }

/-- A commit succeeded. -/
def settle (batch : List Tick) (b : Buffer) : Buffer :=
  { b with failing := false, flushed := b.flushed + batch.length }

/-- What a failed commit is reported as. -/
def commitFault (storage : Bytes) (batch : List Tick) (cause : Fault) :
    Fault :=
  cause.within (.storeWrite storage batch.length)

/-- Commits the queue. `arrivals` is what happens to the buffer while the
commit is under way, and `outcome` its failure, if any. Nothing is committed
when the queue is empty. -/
def flush (storage : Bytes) (arrivals : Buffer → Buffer)
    (outcome : Option Fault) (b : Buffer) : Buffer × Option Fault :=
  let (b, batch) := b.take
  if batch.isEmpty then (b, none)
  else match outcome with
    | none => ((arrivals b).settle batch, none)
    | some cause =>
      ((arrivals b).restore batch, some (commitFault storage batch cause))

/-- Takes the trigger away. -/
def clearTrigger (b : Buffer) : Buffer := { b with trigger := false }

end Buffer
/-- What wakes the loop. -/
inductive Wake where
  | interval
  | trigger
  | cancel
  deriving DecidableEq, Repr

namespace Wake

/-- Whether the loop can be woken this way. -/
def isReady (b : Buffer) : Wake → Bool
  | trigger => b.trigger
  | _ => true

/-- What the loop does to its buffer before it flushes. -/
def notice (b : Buffer) : Wake → Buffer
  | trigger => b.clearTrigger
  | _ => b

/-- Whether the loop goes on after the flush. -/
def goesOn : Wake → Bool
  | cancel => false
  | _ => true

end Wake

/-- The nanoseconds between two interval flushes. -/
def interval (flushIntervalMs : Int64) : Int64 := flushIntervalMs * 1000000

/-- The loop can run only with an interval that is positive after conversion to
64-bit nanoseconds. -/
def canRun (flushIntervalMs : Int64) : Bool := 0 < interval flushIntervalMs

/-- The report of a loop that was ended from outside. -/
def canceled : Fault := .ofText (utf8 "context canceled")

end Ingest
end TickRelay
