import TickRelay.Hub
import TickRelay.Server.Command

/-!
# Visits of clients

A visit is the handling of one connection of a client, from its admission to
its end. A connection that is not admitted gets an error frame and a close. An
admitted one is read message after message; a message that is no command, or a
command that is refused, is answered by an error frame. When reading ends, the
connection is released, the pool is asked whether another connection of the
client took its place, and only if none did, the subscriptions of the client
are withdrawn.

**Algorithm.** `admission`, `receive`, `release`, `look`, `withdraw` and
`finish` are the steps of a visit, each at once; steps of other visits may
happen in between. `stage` says which step is next.

**Results.** `turn` is the next step after reading has ended.
-/

namespace TickRelay
namespace Server

/-- Where a visit stands. -/
inductive Stage where
  /-- Messages are read. -/
  | reading
  /-- Reading ended. -/
  | leaving
  /-- The connection is no longer in the pool. -/
  | released
  /-- The pool was asked whether the client has another connection. -/
  | looked (replaced : Bool)
  /-- The subscriptions are withdrawn, or left to the other connection. -/
  | withdrawn
  /-- The socket is closed. -/
  | finished
  deriving DecidableEq, Repr

/-- The handling of one connection of a client. -/
structure Visit where
  conn : Connection
  session : Session
  stage : Stage := .reading
  deriving DecidableEq

namespace Visit

/-- The client. -/
def client (v : Visit) : Bytes := v.conn.id

/-- What a connection is told that is not admitted: an error frame, and a close
for a violated policy. -/
def refusal (f : Fault) (client : Bytes) : Bytes :=
  Websocket.frame .text (errorFrame f client) ++
    Websocket.frame .close
      (Websocket.bytesOf 2 1008 ++ utf8 "rate limit exceeded")

/-- What comes of a connection that asks for admission. -/
inductive Admission where
  /-- The visit starts, and the connection in whose place it comes is to be
  closed. -/
  | admitted (visit : Visit) (displaced : Option Connection)
  /-- The connection is told something and closed. -/
  | refused (told : Bytes)

/-- The admission of a connection with an empty session. -/
def admission (now : Instant) (c : Connection) (session : Session) (h : Hub) :
    Hub × Admission :=
  match h.connect now c.id c with
  | (h, .ok displaced) => (h, .admitted { conn := c, session } displaced)
  | (h, .error f) =>
    ({ h with metrics := h.metrics.failed }, .refused (refusal f c.id))

/-- Carries a command out: the calls made to the provider. -/
def obey (client : Bytes) (h : Hub) :
    Command → Hub × Except Fault (List ProviderCall)
  | .subscribe symbol => h.subscribe client symbol
  | .unsubscribe symbol => h.unsubscribe client symbol

/-- Carries a message out, if it is a command. -/
def act (client payload : Bytes) (h : Hub) :
    Hub × Except Fault (List ProviderCall) :=
  match Command.parse payload with
  | .ok c => obey client h c
  | .error e => (h, .error e.fault)

/-- Answers a message that was refused: reading ends when there is no room for
the answer. -/
def complain (f : Fault) (v : Visit) : Visit :=
  match v.session.send (errorFrame f v.client) with
  | (session, none) => { v with session }
  | (session, some _) => { v with session, stage := .leaving }

/-- A message of the client: the calls made to the provider. -/
def receive (payload : Bytes) (h : Hub) (v : Visit) :
    Hub × Visit × List ProviderCall :=
  match act v.client payload { h with metrics := h.metrics.received } with
  | (h, .ok calls) => (h, v, calls)
  | (h, .error f) => ({ h with metrics := h.metrics.failed }, v.complain f, [])

/-- Nothing more can be read. -/
def endReading (v : Visit) : Visit := { v with stage := .leaving }

/-- Takes the connection out of the pool. -/
def release (h : Hub) (v : Visit) : Hub × Visit :=
  ((h.release v.conn).1, { v with stage := .released })

/-- Asks whether another connection took the place of this one. -/
def look (h : Hub) (v : Visit) : Visit :=
  { v with stage := .looked (h.pool.get? v.client).isSome }

/-- Withdraws the subscriptions, unless the client has another connection. -/
def withdraw (replaced : Bool) (h : Hub) (v : Visit) :
    Hub × Visit × List ProviderCall :=
  let v := { v with stage := .withdrawn }
  if replaced then (h, v, [])
  else
    let (h, _, calls) := h.unsubscribeAll v.client
    (h, v, calls)

/-- Closes the session. -/
def finish (v : Visit) : Visit :=
  { v with session := v.session.close, stage := .finished }

/-- The next step after reading has ended: the calls made to the provider. -/
def turn (h : Hub) (v : Visit) : Hub × Visit × List ProviderCall :=
  match v.stage with
  | .reading | .finished => (h, v, [])
  | .leaving =>
    let (h, v) := v.release h
    (h, v, [])
  | .released => (h, v.look h, [])
  | .looked replaced => v.withdraw replaced h
  | .withdrawn => (h, v.finish, [])

end Visit
end Server
end TickRelay
