import TickRelay.Config.Load
import TickRelay.Feed.Run
import TickRelay.Hub
import TickRelay.Ingest.Buffer
import TickRelay.Server.Routes
import TickRelay.Storage.Elastic
import TickRelay.Storage.Mysql
import TickRelay.Storage.Redis
import TickRelay.Storage.Terminal

/-!
# The application

The application joins hub, cache, health and one buffer per storage. A frame of
the provider is counted and goes to the cache, to all buffers and to the
subscribers; history goes to the buffers only.

**Results.** `build` sets everything up, or tells which storage cannot be
reached; `receive` routes one frame; `respond` answers a request.
-/

namespace TickRelay

/-- The storages that a configuration can name. -/
inductive StorageKind where
  | terminal
  | mysql
  | elastic
  | redis
  deriving DecidableEq, Repr

namespace StorageKind

/-- The name of a storage. -/
def name : StorageKind → Bytes
  | terminal => Storage.Terminal.name
  | mysql => Storage.Mysql.name
  | elastic => Storage.Elastic.name
  | redis => Storage.Redis.name

/-- The storage of a name. -/
def ofName? (s : Bytes) : Option StorageKind :=
  [terminal, mysql, elastic, redis].find? (·.name = s)

/-- What is reported when a storage cannot be reached. -/
def connectionText : StorageKind → Bytes
  | terminal => utf8 "terminal connection"
  | mysql => utf8 "mysql connection"
  | elastic => utf8 "elastic search connection"
  | redis => utf8 "redis connection"

/-- The configured storages, each once, in order. -/
def configured (names : List Bytes) : List StorageKind :=
  (names.filterMap ofName?).eraseDups

end StorageKind

/-- A storage with the ticks that wait for it. -/
structure Sink where
  name : Bytes
  buffer : Ingest.Buffer

namespace Sink

variable {σ : Type}

/-- Commits what waits for a storage. `commit` is what the storage of a name
does with a batch, and `σ` is what it changes. -/
def flush (commit : σ → Bytes → List Tick → σ × Option Fault) (outside : σ)
    (k : Sink) : σ × Sink × Option Fault :=
  if k.buffer.queue.isEmpty then (outside, k, none)
  else
    let (outside, failure) := commit outside k.name k.buffer.queue
    let (buffer, fault) := k.buffer.flush k.name id failure
    (outside, { k with buffer }, fault)

/-- What the flush loop of a storage does until it is ended from outside: it
heeds the trigger and flushes once more at the end. -/
def finish (commit : σ → Bytes → List Tick → σ × Option Fault) (outside : σ)
    (k : Sink) : σ × Sink × Option Fault :=
  if k.buffer.trigger then
    let (outside, k, _) := { k with
      buffer := Ingest.Wake.notice k.buffer .trigger }.flush commit outside
    k.flush commit outside
  else k.flush commit outside

end Sink

/-- The application. -/
structure App where
  config : Config
  hub : Hub
  cache : Cache
  health : HealthCheck
  sinks : List Sink

namespace App

/-- Seconds as 64-bit nanoseconds. -/
def seconds (n : Int64) : Int64 := n * 1000000000

/-- Why an application cannot be set up. -/
inductive BuildError where
  /-- A storage cannot be reached. -/
  | unreachable (kind : StorageKind)
  /-- Memory has no room for the buffers. -/
  | noRoom
  deriving DecidableEq, Repr

/-- The limits of the buffers. -/
def limits (c : Config) : Ingest.Limits :=
  ⟨c.ingestion.commitBuffer, c.ingestion.maxBuffered⟩

/-- The application at an instant, with buffers for storages of some names. -/
def assemble (c : Config) (now : Instant) (storages : List Bytes) : App where
  config := c
  hub := {
    limiter :=
      { window := seconds c.rateLimit.windowSec,
        max := c.rateLimit.maxRequests }
    feed := .ofConfigured (c.feed.symbols.getD [])
    releaseOnIdle := c.registry.releaseOnIdle }
  cache :=
    { maxTicks := c.cache.maxTicksPerSymbol,
      maxAge := seconds c.cache.maxAgeSec }
  health := .start c.health now
  sinks := storages.map fun name => ⟨name, { limits := limits c }⟩

/-- Sets the application up at an instant, with further storages beside the
configured ones. `reachable` says which storages can be connected; the first
that cannot is told. -/
def build (c : Config) (now : Instant) (reachable : StorageKind → Bool)
    (further : List Bytes) : Except BuildError App :=
  let kinds := StorageKind.configured (c.ingestion.storages.getD [])
  match kinds.find? fun k => !reachable k with
  | some k => .error (.unreachable k)
  | none =>
    let storages := kinds.map StorageKind.name ++ further
    if storages ≠ [] ∧ !(limits c).hasRoom then .error .noRoom
    else .ok (assemble c now storages)

/-- Adds a tick to all buffers. -/
def ingest (t : Tick) (a : App) : App :=
  { a with sinks := a.sinks.map fun s => { s with buffer := s.buffer.add t } }

/-- Handles storage after storage: the outside afterwards, and what each
reported. -/
def eachSink {σ : Type} (handle : σ → Sink → σ × Sink × Option Fault)
    (outside : σ) (a : App) : σ × App × List (Option Fault) :=
  let (outside, sinks, faults) := handleAll outside a.sinks
  (outside, { a with sinks }, faults)
where
  /-- Handles a list of storages. -/
  handleAll (outside : σ) : List Sink → σ × List Sink × List (Option Fault)
    | [] => (outside, [], [])
    | k :: ks =>
      let (outside, k, fault) := handle outside k
      let (outside, ks, faults) := handleAll outside ks
      (outside, k :: ks, fault :: faults)

/-- Routes one frame of the provider: the report of its delivery. -/
def receive (clock : Instant) (offer : Connection → Bytes → Option SendError)
    (latency : Binary64) (frame : Bytes) (a : App) :
    App × Dispatch.Plan × Dispatch.Report :=
  match a.hub.feed.handle clock frame with
  | (_, none) => (a, .nothing, [])
  | (feed, some (t, .history)) =>
    (({ a with hub := { a.hub with feed } } : App).ingest t, .nothing, [])
  | (feed, some (t, .live)) =>
    let a : App := { a with
      hub := { a.hub with feed, metrics := a.hub.metrics.received }
      cache := a.cache.handle clock t }
    let a := a.ingest t
    let (hub, plan, report) := a.hub.dispatch offer latency t
    ({ a with hub }, plan, report)

/-- Answers a request of a client that cannot be upgraded. -/
def respond (now : Instant) (r : Http.Request) (a : App) :
    App × Http.Response :=
  match Server.destination r with
  | .moved path => (a, .movedTo r path)
  | .missing => (a, .notFound)
  | .route .websocket =>
    ({ a with hub := { a.hub with metrics := a.hub.metrics.failed } },
      Server.cannotUpgrade)
  | .route route =>
    if !r.isGet then (a, .methodNotAllowed)
    else match route with
      | .health =>
        let (health, report) :=
          a.health.check now a.hub.metrics a.hub.feed.isConnected
        ({ a with health }, .json (Server.healthJson? report))
      | .metrics => (a, .json (Server.metricsJson? a.hub.metrics))
      | _ => (a, Server.answerTicks a.cache r)

end App
end TickRelay
