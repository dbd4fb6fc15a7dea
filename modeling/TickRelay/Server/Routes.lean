import TickRelay.Cache
import TickRelay.Health
import TickRelay.Http.Message
import TickRelay.Symbol

/-!
# Routes

The server has four paths: the websocket, health, metrics and recent ticks. A
path that is not in its clean form is answered by a redirect to the clean form;
a tunnel request is taken as it is.
-/

namespace TickRelay
namespace Server

/-- The four paths. -/
inductive Route where
  | websocket
  | health
  | metrics
  | ticks
  deriving DecidableEq, Repr

/-- The route of a path. -/
def route? (path : Bytes) : Option Route :=
  if path = utf8 "/ws" then some .websocket
  else if path = utf8 "/health" then some .health
  else if path = utf8 "/metrics" then some .metrics
  else if path = utf8 "/ticks" then some .ticks
  else none

/-- Where a request leads. -/
inductive Destination where
  | moved (path : Bytes)
  | missing
  | route (r : Route)
  deriving DecidableEq, Repr

/-- The destination of a request. -/
def destination (r : Http.Request) : Destination :=
  let clean := Http.cleanPath r.path
  if r.method ≠ utf8 "CONNECT" ∧ clean ≠ r.path then .moved clean
  else match route? r.path with
    | none => .missing
    | some route => .route route

/-- The report of a health check as JSON. -/
def healthJson? (h : HealthReport) : Option Bytes := do
  let uptime ← Json.writeFloat? h.uptime
  some (Json.writeObject [
    (utf8 "status", Json.quote h.status.text),
    (utf8 "latency", Bytes.signedDecimal h.latency),
    (utf8 "timestamp", Json.quote h.timestamp),
    (utf8 "uptime", uptime)])

/-- The metrics as JSON. -/
def metricsJson? (m : Metrics) : Option Bytes := do
  let samples ← m.latency.mapM Json.writeFloat?
  let average ← Json.writeFloat? m.averageLatency
  some (Json.writeObject [
    (utf8 "activeConnections", Bytes.signedDecimal m.activeConnections),
    (utf8 "messagesSent", Bytes.signedDecimal m.messagesSent),
    (utf8 "messagesReceived", Bytes.signedDecimal m.messagesReceived),
    (utf8 "errors", Bytes.signedDecimal m.errors),
    (utf8 "latency", Json.writeArray samples),
    (utf8 "averageLatency", average)])

/-- Ticks as JSON. -/
def ticksJson? (ts : List Tick) : Option Bytes :=
  (ts.mapM Tick.encode?).map Json.writeArray

/-- The answer with the recent ticks of the symbol that a query names. -/
def answerTicks (c : Cache) (r : Http.Request) : Http.Response :=
  let symbol :=
    Symbol.normalize ((Http.queryValue? r.query (utf8 "symbol")).getD [])
  if symbol = [] then .error 400 (utf8 "symbol is required")
  else .json (ticksJson? (c.ticks symbol))

/-- The answer to an upgrade of a connection that cannot be taken over. -/
def cannotUpgrade : Http.Response :=
  let text := utf8 "given http.ResponseWriter is not a http.Hijacker"
  { status := 500
    headers :=
      [Http.Response.plainText,
        (utf8 "Content-Length", Bytes.decimal text.length)]
    body := text }

end Server
end TickRelay
