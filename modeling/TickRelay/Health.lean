import TickRelay.Calendar.Text
import TickRelay.Config.Basic
import TickRelay.Metrics

/-!
# Health

The status is the worst that a threshold reports: first the feed, then latency
and errors against the unhealthy thresholds, then against the degraded ones. A
check also tells the time since the last check and since the start; differences
of instants are held in 64-bit nanoseconds.
-/

namespace TickRelay

/-- How the service feels. -/
inductive Status where
  | healthy
  | degraded
  | unhealthy
  deriving DecidableEq, Repr

namespace Status

/-- The word for a status. -/
def text : Status → Bytes
  | healthy => utf8 "healthy"
  | degraded => utf8 "degraded"
  | unhealthy => utf8 "unhealthy"

/-- Whether a latency reaches a threshold that is set. -/
def reaches (threshold latency : Binary64) : Bool :=
  Binary64.zero.lt threshold && threshold.le latency

/-- Whether a number of errors reaches a threshold that is set. -/
def exceeds (threshold : Int64) (errors : Int) : Bool :=
  0 < threshold && threshold.toInt ≤ errors

/-- The status for a mean latency, a number of errors and a state of the
feed. -/
def evaluate (th : Config.Health) (latency : Binary64) (errors : Int)
    (feedUp : Bool) : Status :=
  if th.requireFeed && !feedUp then .unhealthy
  else if reaches th.unhealthyLatencyMs latency then .unhealthy
  else if exceeds th.unhealthyErrors errors then .unhealthy
  else if reaches th.degradedLatencyMs latency then .degraded
  else if exceeds th.degradedErrors errors then .degraded
  else .healthy

end Status

/-- What a check reports. -/
structure HealthReport where
  status : Status
  /-- Milliseconds since the last check. -/
  latency : Int
  timestamp : Bytes
  /-- Seconds since the start. -/
  uptime : Binary64

/-- Checks in a row. -/
structure HealthCheck where
  thresholds : Config.Health
  started : Instant
  lastCheck : Instant

namespace HealthCheck

/-- Checks that start at an instant. -/
def start (th : Config.Health) (now : Instant) : HealthCheck := ⟨th, now, now⟩

/-- The nanoseconds between two instants, as far as 64 bits hold them. -/
def elapsed (since now : Instant) : Int :=
  max Int64.minValue.toInt (min Int64.maxValue.toInt (now.nanos - since.nanos))

/-- Nanoseconds as seconds: whole seconds and the rest are rounded apart. -/
def seconds (nanos : Int) : Binary64 :=
  (Binary64.ofInt (nanos.tdiv nanosPerSecond)).add
    ((Binary64.ofInt (nanos.tmod nanosPerSecond)).div (.ofInt nanosPerSecond))

/-- A check. -/
def check (now : Instant) (m : Metrics) (feedUp : Bool) (h : HealthCheck) :
    HealthCheck × HealthReport :=
  ({ h with lastCheck := now }, {
    status := .evaluate h.thresholds m.averageLatency m.errors feedUp
    latency := (elapsed h.lastCheck now).tdiv 1000000
    timestamp := now.text
    uptime := seconds (elapsed h.started now) })

end HealthCheck
end TickRelay
