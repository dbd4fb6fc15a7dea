import TickRelay.Metrics
import TickRelay.Pool
import TickRelay.Registry
import TickRelay.Session
import TickRelay.Tick

/-!
# Delivery of ticks

A tick goes to the stored connection of every subscriber of its symbol, as one
frame that is the same for all. A connection without room is closed and counted
as an error; one that is closed already is passed over. The frame holds the
symbol as the tick has it.

**Results.** `plan` says who is offered what; `Report` collects the outcomes,
and `Report.count` is their effect on the counters.
-/

namespace TickRelay
namespace Dispatch

/-- What is to be delivered. -/
inductive Plan where
  /-- Nobody subscribed. -/
  | nothing
  /-- The tick cannot be written. -/
  | unwritable
  /-- A frame for some connections. -/
  | offer (frame : Bytes) (targets : List Connection)
  deriving DecidableEq

/-- The stored connections of the subscribers of a symbol. -/
def targets (r : Registry) (p : Pool) (symbol : Bytes) : List Connection :=
  (r.subscribers symbol).filterMap p.get?

/-- The plan for a tick. -/
def plan (r : Registry) (p : Pool) (t : Tick) : Plan :=
  if (r.subscribers t.symbol).isEmpty then .nothing
  else match t.encode? with
    | none => .unwritable
    | some frame => .offer frame (targets r p t.symbol)

/-- What came of the offers. -/
abbrev Report := List (Connection × Option SendError)

namespace Report

/-- The connections that took the frame. -/
def delivered (r : Report) : List Connection :=
  r.filterMap fun (c, e) => if e = none then some c else none

/-- The connections that had no room; they are closed. -/
def slow (r : Report) : List Connection :=
  r.filterMap fun (c, e) => if e = some .full then some c else none

/-- The counters after the offers; the time they took is a latency sample. -/
def count (r : Report) (latency : Binary64) (m : Metrics) : Metrics :=
  ((m.sent r.delivered.length).failed r.slow.length).record latency

end Report
end Dispatch
end TickRelay
