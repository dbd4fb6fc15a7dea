import TickRelay.Binary64.Basic

/-!
# Counters and latencies

Four counters and the last thousand latency samples in milliseconds. The mean
adds the samples from the oldest on and divides once; it is zero without
samples.
-/

namespace TickRelay

namespace Metrics

/-- How many samples are kept. -/
def maxSamples : Nat := 1000

/-- Some samples and one more; the oldest one leaves when there is no room. -/
def keep (samples : List Binary64) (ms : Binary64) : List Binary64 :=
  (if samples.length = maxSamples then samples.tail else samples) ++ [ms]

/-- The last ones are kept. -/
theorem keep_eq_drop {samples : List Binary64} (ms : Binary64)
    (h : samples.length ≤ maxSamples) :
    keep samples ms =
      (samples ++ [ms]).drop ((samples ++ [ms]).length - maxSamples) := by
  rw [keep, List.length_append, List.length_singleton]
  by_cases hfull : samples.length = maxSamples
  · have hpos : 1 ≤ samples.length := by
      rw [hfull]
      decide
    rw [if_pos hfull, hfull, Nat.add_sub_cancel_left,
      List.drop_append_of_le_length hpos, List.drop_one]
  · have hroom : samples.length + 1 - maxSamples = 0 := by omega
    rw [if_neg hfull, hroom, List.drop_zero]

theorem length_keep_le {samples : List Binary64} (ms : Binary64)
    (h : samples.length ≤ maxSamples) :
    (keep samples ms).length ≤ maxSamples := by
  rw [keep_eq_drop ms h, List.length_drop]
  omega

end Metrics

/-- The counters, and the samples, oldest first. -/
structure Metrics where
  activeConnections : Int := 0
  messagesSent : Int := 0
  messagesReceived : Int := 0
  errors : Int := 0
  latency : List Binary64 := []
  length_latency_le : latency.length ≤ Metrics.maxSamples := by
    exact Nat.zero_le _

namespace Metrics

/-- A client connected. -/
def connected (m : Metrics) : Metrics :=
  { m with activeConnections := m.activeConnections + 1 }

/-- A client is gone. -/
def disconnected (m : Metrics) : Metrics :=
  { m with activeConnections := m.activeConnections - 1 }

/-- Frames were sent. -/
def sent (m : Metrics) (n : Nat := 1) : Metrics :=
  { m with messagesSent := m.messagesSent + n }

/-- A message was received. -/
def received (m : Metrics) : Metrics :=
  { m with messagesReceived := m.messagesReceived + 1 }

/-- Errors happened. -/
def failed (m : Metrics) (n : Nat := 1) : Metrics :=
  { m with errors := m.errors + n }

/-- Adds a sample. -/
def record (ms : Binary64) (m : Metrics) : Metrics :=
  { m with
    latency := keep m.latency ms
    length_latency_le := length_keep_le ms m.length_latency_le }

/-- The samples are the last ones. -/
theorem latency_record (ms : Binary64) (m : Metrics) :
    (m.record ms).latency =
      (m.latency ++ [ms]).drop ((m.latency ++ [ms]).length - maxSamples) :=
  keep_eq_drop ms m.length_latency_le

/-- The mean of some samples. -/
def mean (samples : List Binary64) : Binary64 :=
  if samples.isEmpty then .zero
  else (samples.foldl Binary64.add .zero).div (.ofInt samples.length)

/-- The mean latency. -/
def averageLatency (m : Metrics) : Binary64 := mean m.latency

end Metrics
end TickRelay
