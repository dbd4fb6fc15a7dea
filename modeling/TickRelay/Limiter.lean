import TickRelay.Calendar.Instant
import TickRelay.Table

/-!
# Admission of clients

A client is admitted when fewer than a given number of its admissions lie in
the window that ends now. The limiter keeps the times of admissions per client
and forgets those that left the window; a sweep forgets clients whose last
admission did.
-/

namespace TickRelay

/-- Admissions per client, oldest first. -/
structure Limiter where
  /-- Nanoseconds. -/
  window : Int64
  max : Int64
  history : Table (List Instant) := .empty

namespace Limiter

/-- The admissions of a client that are still known. -/
def admissions (l : Limiter) (client : Bytes) : List Instant :=
  (l.history.get? client).getD []

/-- The start of the window that ends now. -/
def start (now : Instant) (l : Limiter) : Instant :=
  now.shift (-l.window).toInt

/-- The times from the first one on that is in the window. -/
def prune (start : Instant) (times : List Instant) : List Instant :=
  times.dropWhile (·.before start)

/-- Asks for the admission of a client. -/
def ask (now : Instant) (client : Bytes) (l : Limiter) : Limiter × Bool :=
  let recent := prune (l.start now) (l.admissions client)
  if l.max.toInt ≤ recent.length then
    ({ l with history := l.history.set client recent }, false)
  else ({ l with history := l.history.set client (recent ++ [now]) }, true)

/-- Whether the last admission is out of the window. -/
def isIdle (start : Instant) (times : List Instant) : Bool :=
  match times.getLast? with
  | none => true
  | some t => t.before start

/-- Forgets idle clients: the limiter afterwards, and how many were
forgotten. -/
def sweep (now : Instant) (l : Limiter) : Limiter × Nat :=
  let kept := l.history.filter fun _ times => !isIdle (l.start now) times
  ({ l with history := kept }, l.history.size - kept.size)

/-- The number of clients that are known. -/
def clients (l : Limiter) : Nat := l.history.size

end Limiter
end TickRelay
