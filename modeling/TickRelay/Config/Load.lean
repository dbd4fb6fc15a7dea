import TickRelay.Config.Decode
import TickRelay.Fault
import TickRelay.Symbol

/-!
# Loading a configuration

**Input.** The content of the configuration file, or that it is missing.

**Algorithm.** The settings are read over the defaults and checked in a fixed
order; the first check that fails is reported. At last the feed symbols are
brought to normal form.

**Results.** `Config.load` gives the checked settings or the reason why there
are none.
-/

namespace TickRelay
namespace Config

/-- Settings that make no sense. -/
inductive Violation where
  | emptyFeedUrl
  | sendQueueSize
  | sessionTimes
  | cacheSize
  | sweepTimes
  | commitBuffer
  | flushInterval
  | maxBuffered
  | rateLimit
  | unknownStorage (name : Bytes)
  deriving DecidableEq, Repr

namespace Violation

/-- The violation in words. -/
def text : Violation → Bytes
  | emptyFeedUrl => utf8 "feed url should not be empty"
  | sendQueueSize => utf8 "send_queue_size should be greater than zero"
  | sessionTimes =>
    utf8 "write_wait_sec, pong_wait_sec and max_message_size should be greater than zero"
  | cacheSize => utf8 "max_ticks_per_symbol should be greater than zero"
  | sweepTimes =>
    utf8 "cache max_age_sec and sweep intervals should be greater than zero"
  | commitBuffer => utf8 "commit_buffer should be greater than zero"
  | flushInterval => utf8 "flush_interval_ms should be greater than zero"
  | maxBuffered => utf8 "max_buffered should not be less than commit_buffer"
  | rateLimit =>
    utf8 "rate_limit window_sec and max_requests should be greater than zero"
  | unknownStorage name => utf8 "unknown storage " ++ name

end Violation

/-- The storages that exist. -/
def knownStorages : List Bytes :=
  [utf8 "terminal", utf8 "mysql", utf8 "elastic_search", utf8 "redis"]

/-- The first violation. -/
def violation? (c : Config) : Option Violation :=
  if c.feed.url = [] then some .emptyFeedUrl
  else if c.server.sendQueueSize < 1 then some .sendQueueSize
  else if c.server.writeWaitSec < 1 ∨ c.server.pongWaitSec < 1 ∨
      c.server.maxMessageSize < 1 then
    some .sessionTimes
  else if c.cache.maxTicksPerSymbol < 1 then some .cacheSize
  else if c.cache.maxAgeSec < 1 ∨ c.cache.sweepIntervalSec < 1 ∨
      c.rateLimit.sweepIntervalSec < 1 then
    some .sweepTimes
  else if c.ingestion.commitBuffer < 1 then some .commitBuffer
  else if c.ingestion.flushIntervalMs < 1 then some .flushInterval
  else if c.ingestion.maxBuffered < c.ingestion.commitBuffer then
    some .maxBuffered
  else if c.rateLimit.windowSec < 1 ∨ c.rateLimit.maxRequests < 1 then
    some .rateLimit
  else
    ((c.ingestion.storages.getD []).find? fun s =>
      !knownStorages.contains s).map .unknownStorage

/-- The settings with feed symbols in normal form. -/
def normalize (c : Config) : Config :=
  { c with
    feed := { c.feed with
      symbols := c.feed.symbols.map (·.map Symbol.normalize) } }

/-- Checks settings and brings them to normal form. -/
def validate (c : Config) : Except Violation Config :=
  match c.violation? with
  | some v => .error v
  | none => .ok c.normalize

/-- Why there are no settings. -/
inductive LoadError where
  | missing
  | malformed
  | invalid (v : Violation)
  deriving DecidableEq, Repr

/-- The settings of a file with the given content. -/
def load (content : Option Bytes) : Except LoadError Config :=
  match content with
  | none => .error .missing
  | some s =>
    match decode? s with
    | none => .error .malformed
    | some c => (validate c).mapError .invalid

/-- The report of a failed load. What exactly is malformed is not told. -/
def LoadError.text (path : Bytes) : LoadError → Bytes
  | missing =>
    utf8 "not able to find config file " ++ path ++ utf8 ": open " ++ path ++
      utf8 ": no such file or directory"
  | malformed => utf8 "not able to parse JSON from config file " ++ path
  | invalid v => v.text

end Config
end TickRelay
