import TickRelay.Fault
import TickRelay.Websocket.Frame

/-!
# Sessions

A session is the connection of one client. Frames for the client wait in a
queue of bounded length that a pump empties; a frame for which there is no room
is refused and never waits. A session is closed once, and then takes nothing
more; what was queued stays unsent.
-/

namespace TickRelay

/-- Why a frame is not taken. -/
inductive SendError where
  | closed
  | full
  deriving DecidableEq, Repr

namespace SendError

/-- The reason in words. -/
def text : SendError → Bytes
  | closed => utf8 "connection closed"
  | full => utf8 "send queue full"

/-- The fault that is reported. -/
def fault (e : SendError) : Fault := .ofText e.text

end SendError

/-- The connection of a client. -/
structure Session where
  id : Bytes
  capacity : Nat
  queue : List Bytes := []
  isOpen : Bool := true
  /-- How often the socket was closed. -/
  socketCloses : Nat := 0
  deriving DecidableEq

namespace Session

/-- The frames that memory has room for: each takes 24 bytes, the queue itself
96, and addresses have 48 bits. -/
def room : Nat := (Nat.pow 2 48 - 96) / 24

/-- A new session; a queue of negative length does not exist, nor one that
memory has no room for. -/
def create? (id : Bytes) (queueSize : Int64) : Option Session :=
  if 0 ≤ queueSize && queueSize.toInt ≤ (room : Int) then
    some { id, capacity := queueSize.toInt.toNat }
  else none

/-- Queues a frame. -/
def send (s : Session) (frame : Bytes) : Session × Option SendError :=
  if !s.isOpen then (s, some .closed)
  else if s.queue.length < s.capacity then
    ({ s with queue := s.queue ++ [frame] }, none)
  else (s, some .full)

/-- Closes the session and its socket, the first time. -/
def close (s : Session) : Session :=
  if s.isOpen then { s with
    isOpen := false, socketCloses := s.socketCloses + 1 } else s

/-- The time between two pings: nine tenths of the time that a client may be
silent, in 64-bit nanoseconds. -/
def pingPeriod (pongWait : Int64) : Int64 := pongWait * 9 / 10

/-- What the pump does next. -/
inductive PumpStep where
  /-- Write the oldest frame of the queue. -/
  | frame
  /-- Write a ping. -/
  | ping
  /-- Stop, since the session is closed or a write failed. -/
  | stop
  deriving DecidableEq, Repr

/-- Whether the pump can do a step. -/
def canPump (s : Session) : PumpStep → Bool
  | .frame => !s.queue.isEmpty
  | _ => true

/-- A step of the pump: the session afterwards and the bytes written. -/
def pump (s : Session) : PumpStep → Session × Bytes
  | .frame =>
    match s.queue with
    | [] => (s, [])
    | f :: rest => ({ s with queue := rest }, Websocket.frame .text f)
  | .ping => (s, Websocket.frame .ping [])
  | .stop => (s.close, [])

/-- Step after step of the pump: the session afterwards and what each step
wrote. -/
def pumpAll (s : Session) : List PumpStep → Session × List Bytes
  | [] => (s, [])
  | p :: ps =>
    let (s, written) := s.pump p
    let (s, more) := s.pumpAll ps
    (s, written :: more)

end Session
end TickRelay
