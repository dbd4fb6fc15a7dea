import TickRelay.Bytes
import TickRelay.Binary64.Basic
import TickRelay.Fault

/-!
# Databases

A database is known by its reactions to statements. A handle is open until it
is closed, and a closed handle sends nothing. Requests may have a time limit in
seconds; a limit whose nanoseconds do not fit in 64 bits can come out negative,
and then the request is over before it is sent.
-/

namespace TickRelay
namespace Storage

/-- A value bound to a placeholder. -/
inductive Argument where
  | text (s : Bytes)
  | float (x : Binary64)
  deriving DecidableEq

/-- Statements that change something and statements that ask. -/
inductive StatementKind where
  | exec
  | query
  deriving DecidableEq, Repr

/-- A statement with its arguments. -/
structure Statement where
  kind : StatementKind
  sql : Bytes
  args : List Argument := []
  deriving DecidableEq

/-- The answer to a statement: a count for those that ask. -/
inductive Reply where
  | count (n : Nat)
  | failed (text : Bytes)
  deriving DecidableEq, Repr

/-- A database with states `σ`. -/
structure Database (σ : Type) where
  react : σ → Statement → σ × Reply

/-- A database in a state, behind a handle that may be closed. -/
structure Handle (σ : Type) where
  state : σ
  isOpen : Bool := true

/-- A time limit in seconds that is over at once. -/
def isOver (limitSec : Int64) : Bool :=
  0 < limitSec && limitSec * 1000000000 ≤ 0

namespace Handle

/-- Sends a statement. -/
def submit {σ : Type} (db : Database σ) (limitSec : Int64) (h : Handle σ)
    (s : Statement) : Handle σ × Except Fault Nat :=
  if !h.isOpen then (h, .error (.ofText (utf8 "sql: database is closed")))
  else if isOver limitSec then
    (h, .error (.ofText (utf8 "context deadline exceeded")))
  else
    let (state, reply) := db.react h.state s
    ({ h with state }, match reply with
      | .count n => .ok n
      | .failed text => .error (.ofText text))

/-- Closes the handle; closing again changes nothing. -/
def close {σ : Type} (h : Handle σ) : Handle σ := { h with isOpen := false }

end Handle
end Storage
end TickRelay
