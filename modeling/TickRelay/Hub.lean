import TickRelay.Dispatch
import TickRelay.Feed.Client
import TickRelay.Limiter

/-!
# The hub

The hub joins clients and feed: it admits connections, keeps subscriptions,
asks the provider for what is subscribed and delivers ticks. Its parts are
changed one after the other, so every operation is a sequence of the steps of
its parts.

**Results.** `connect`, `remove`, `release` and `closeAll` change the pool and
the gauge of active connections; `subscribe`, `unsubscribe` and
`unsubscribeAll` change the registry and then call the feed; `dispatch`
delivers a tick.
-/

namespace TickRelay

/-- The parts of the hub. -/
structure Hub where
  limiter : Limiter
  pool : Pool := {}
  registry : Registry := {}
  metrics : Metrics := {}
  feed : Feed.Client := {}
  releaseOnIdle : Bool := false

namespace Hub

/-- Asks for the admission of a connection. The connection that it displaces is
to be closed. -/
def connect (now : Instant) (client : Bytes) (c : Connection) (h : Hub) :
    Hub × Except Fault (Option Connection) :=
  match h.limiter.ask now client with
  | (limiter, false) => ({ h with limiter }, .error (.of (.rateLimit client)))
  | (limiter, true) =>
    let (pool, displaced) := h.pool.insert client c
    let metrics := if displaced.isSome then h.metrics else h.metrics.connected
    ({ h with limiter, pool, metrics }, .ok displaced)

/-- Takes the connection of a client out; it is to be closed. -/
def remove (client : Bytes) (h : Hub) : Hub × Option Connection :=
  let (pool, c) := h.pool.remove client
  ({ h with
    pool,
    metrics := if c.isSome then h.metrics.disconnected else h.metrics }, c)

/-- Takes a connection out that ends by itself; tells whether it was stored. -/
def release (c : Connection) (h : Hub) : Hub × Bool :=
  let (pool, owner) := h.pool.release c
  ({ h with
    pool,
    metrics := if owner then h.metrics.disconnected else h.metrics }, owner)

/-- Takes all connections out; they are to be closed. -/
def closeAll (h : Hub) : Hub × List Connection :=
  let (pool, cs) := h.pool.clear
  ({ h with
    pool,
    metrics := cs.foldl (fun m _ => m.disconnected) h.metrics }, cs)

/-- Makes calls to the feed. -/
def call (calls : List ProviderCall) (h : Hub) : Hub :=
  { h with feed := calls.foldl (fun f c => (f.call c).1) h.feed }

/-- First step of a subscription: tells whether the symbol is new. -/
def join (client symbol : Bytes) (h : Hub) : Hub × Bool :=
  let (registry, isNew) := h.registry.join client symbol
  ({ h with registry }, isNew)

/-- First step of a withdrawal: tells whether the symbol became idle. -/
def leave (client symbol : Bytes) (h : Hub) : Hub × Bool :=
  let (registry, idle) := h.registry.leave client symbol
  ({ h with registry }, idle)

/-- Second step after a symbol was new: the calls made. -/
def afterJoin (symbol : Bytes) (h : Hub) : Hub × List ProviderCall :=
  let calls := h.registry.callsAfterJoin symbol
  (h.call calls, calls)

/-- Second step after a symbol became idle: the calls made. -/
def afterLeave (symbol : Bytes) (h : Hub) : Hub × List ProviderCall :=
  let calls := h.registry.callsAfterLeave h.releaseOnIdle symbol
  (h.call calls, calls)

/-- Subscribes a client to a symbol: the calls made. -/
def subscribe (client symbol : Bytes) (h : Hub) :
    Hub × Except Fault (List ProviderCall) :=
  let symbol := Symbol.normalize symbol
  if symbol = [] then (h, .error Registry.symbolRequired)
  else
    match h.join client symbol with
    | (h, false) => (h, .ok [])
    | (h, true) =>
      let (h, calls) := h.afterJoin symbol
      (h, .ok calls)

/-- Withdraws the subscription of a client to a symbol: the calls made. -/
def unsubscribe (client symbol : Bytes) (h : Hub) :
    Hub × Except Fault (List ProviderCall) :=
  let symbol := Symbol.normalize symbol
  if symbol = [] then (h, .error Registry.symbolRequired)
  else
    match h.leave client symbol with
    | (h, false) => (h, .ok [])
    | (h, true) =>
      let (h, calls) := h.afterLeave symbol
      (h, .ok calls)

/-- Withdraws all subscriptions of a client: their symbols, and the calls
made. -/
def unsubscribeAll (client : Bytes) (h : Hub) :
    Hub × List Bytes × List ProviderCall :=
  let (registry, removed, idle) := h.registry.leaveAll client
  let release (st : Hub × List ProviderCall) (s : Bytes) :
      Hub × List ProviderCall :=
    let (h, calls) := st.1.afterLeave s
    (h, st.2 ++ calls)
  let (h, calls) := idle.foldl release ({ h with registry }, [])
  (h, removed, calls)

/-- Delivers a tick, where `offer` says what a connection answers: the report
of the offers. -/
def dispatch (offer : Connection → Bytes → Option SendError)
    (latency : Binary64) (t : Tick) (h : Hub) :
    Hub × Dispatch.Plan × Dispatch.Report :=
  match Dispatch.plan h.registry h.pool t with
  | .nothing => (h, .nothing, [])
  | .unwritable => ({ h with metrics := h.metrics.failed }, .unwritable, [])
  | .offer frame targets =>
    let report : Dispatch.Report := targets.map fun c => (c, offer c frame)
    ({ h with metrics := report.count latency h.metrics },
      .offer frame targets, report)

end Hub
end TickRelay
