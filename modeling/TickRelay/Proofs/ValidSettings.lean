import TickRelay.Config.Load

/-!
# Settings that pass the checks

**Results.** `sound_of_validate` collects what is known of settings that were
checked: every check of the fixed order passed, and bringing the feed symbols
to normal form undid none of them.
-/

namespace TickRelay
namespace Config

/-- Settings of which every check passes. -/
structure Sound (c : Config) : Prop where
  feedUrl : c.feed.url ≠ []
  sendQueueSize : 1 ≤ c.server.sendQueueSize
  writeWaitSec : 1 ≤ c.server.writeWaitSec
  pongWaitSec : 1 ≤ c.server.pongWaitSec
  maxMessageSize : 1 ≤ c.server.maxMessageSize
  maxTicksPerSymbol : 1 ≤ c.cache.maxTicksPerSymbol
  maxAgeSec : 1 ≤ c.cache.maxAgeSec
  cacheSweepIntervalSec : 1 ≤ c.cache.sweepIntervalSec
  limiterSweepIntervalSec : 1 ≤ c.rateLimit.sweepIntervalSec
  commitBuffer : 1 ≤ c.ingestion.commitBuffer
  flushIntervalMs : 1 ≤ c.ingestion.flushIntervalMs
  maxBuffered : c.ingestion.commitBuffer ≤ c.ingestion.maxBuffered
  windowSec : 1 ≤ c.rateLimit.windowSec
  maxRequests : 1 ≤ c.rateLimit.maxRequests
  storages : ∀ s ∈ c.ingestion.storages.getD [],
    knownStorages.contains s = true

/-- A check has passed if it gave no violation, and those after it gave none
either. -/
theorem passed {p : Prop} [Decidable p] {v : Violation}
    {later : Option Violation} (h : (if p then some v else later) = none) :
    ¬ p ∧ later = none := by
  by_cases hp : p
  · rw [if_pos hp] at h
    cases h
  · rw [if_neg hp] at h
    exact ⟨hp, h⟩

theorem sound_of_no_violation {c : Config} (h : c.violation? = none) :
    c.Sound := by
  unfold violation? at h
  obtain ⟨hUrl, h⟩ := passed h
  obtain ⟨hQueue, h⟩ := passed h
  obtain ⟨hTimes, h⟩ := passed h
  obtain ⟨hTicks, h⟩ := passed h
  obtain ⟨hSweeps, h⟩ := passed h
  obtain ⟨hCommit, h⟩ := passed h
  obtain ⟨hFlush, h⟩ := passed h
  obtain ⟨hMax, h⟩ := passed h
  obtain ⟨hRate, h⟩ := passed h
  simp only [not_or, Int64.not_lt]
    at hQueue hTimes hTicks hSweeps hCommit hFlush hMax hRate
  obtain ⟨hWrite, hPong, hSize⟩ := hTimes
  obtain ⟨hAge, hCache, hLimiter⟩ := hSweeps
  refine ⟨hUrl, hQueue, hWrite, hPong, hSize, hTicks, hAge, hCache, hLimiter,
    hCommit, hFlush, hMax, hRate.1, hRate.2, ?_⟩
  intro s hs
  have hnone := List.find?_eq_none.mp (Option.map_eq_none_iff.mp h) s hs
  simpa using hnone

/-- Checked settings are the given ones with feed symbols in normal form. -/
theorem validate_ok {c valid : Config} (h : c.validate = .ok valid) :
    c.violation? = none ∧ valid = c.normalize := by
  unfold validate at h
  split at h
  · cases h
  · rename_i hn
    cases h
    exact ⟨hn, rfl⟩

theorem sound_of_validate {c valid : Config} (h : c.validate = .ok valid) :
    valid.Sound := by
  obtain ⟨hn, rfl⟩ := validate_ok h
  -- No check looks at the feed symbols, so each fact is the same one about
  -- `c`.
  exact { sound_of_no_violation hn with }

end Config
end TickRelay
