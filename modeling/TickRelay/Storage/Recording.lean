import TickRelay.Storage.Database

/-!
# A database that keeps a record

The database knows which partitions exist. It remembers every statement that
reaches it, refuses the ones it is told to refuse, and answers a question for
one name by whether a partition of that name exists.
-/

namespace TickRelay
namespace Storage

/-- The state of the database. -/
structure Recording where
  /-- Which partitions exist. -/
  partitionExists : Bytes → Bool
  /-- The text with which a statement is refused. -/
  refusal? : Bytes → Option Bytes := fun _ => none
  /-- The statements so far, oldest first. -/
  statements : List Statement := []

namespace Recording

/-- The answer to a statement that is not refused. -/
def count (r : Recording) (s : Statement) : Nat :=
  match s.kind, s.args with
  | .query, [.text name] => if r.partitionExists name then 1 else 0
  | _, _ => 0

/-- The database. -/
def database : Database Recording where
  react r s :=
    ({ r with statements := r.statements ++ [s] },
      match r.refusal? s.sql with
      | some text => .failed text
      | none => .count (r.count s))

end Recording
end Storage
end TickRelay
