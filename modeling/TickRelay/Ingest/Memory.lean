import TickRelay.Ingest.Buffer

/-!
# A storage in memory

The storage keeps the batches that were committed to it, and refuses as many
commits as it is told to.

**Results.** `flush` moves the queue of a buffer into the storage; `turn` is
one turn of the flush loop.
-/

namespace TickRelay
namespace Ingest

/-- The committed batches, and the failures to come. -/
structure Memory where
  /-- How many of the next commits fail; all of them for a negative number. -/
  failures : Int := 0
  /-- What a failed commit reports. -/
  text : Bytes := []
  /-- The batches so far, oldest first. -/
  batches : List (List Tick) := []
  deriving DecidableEq

namespace Memory

/-- A commit. -/
def commit (m : Memory) (batch : List Tick) : Memory × Option Fault :=
  if m.failures = 0 then ({ m with batches := m.batches ++ [batch] }, none)
  else
    ({ m with
      failures := if 0 < m.failures then m.failures - 1 else m.failures },
      some (.ofText m.text))

/-- A flush of a buffer; `arrivals` is what happens to the buffer while the
commit is under way. -/
def flush (storage : Bytes) (arrivals : Buffer → Buffer) (m : Memory)
    (b : Buffer) : Memory × Buffer × Option Fault :=
  let (m, outcome) := if b.queue.isEmpty then (m, none) else m.commit b.queue
  (m, b.flush storage arrivals outcome)

/-- A turn of the flush loop. -/
def turn (storage : Bytes) (arrivals : Buffer → Buffer) (w : Wake) (m : Memory)
    (b : Buffer) : Memory × Buffer :=
  let (m, b, _) := m.flush storage arrivals (w.notice b)
  (m, b)

end Memory
end Ingest
end TickRelay
