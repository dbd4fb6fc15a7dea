import TickRelay.Calendar.Text
import TickRelay.Fault
import TickRelay.Json.Text

/-!
# The log

Messages go to standard output, to a named file that ends in `.log`, or to a
new file whose name carries the time. Messages below the level are left out; a
level that is not known leaves the level as it was.
-/

namespace TickRelay
namespace Logger

/-- Levels, the least important first. -/
inductive Level where
  | trace
  | debug
  | info
  | error
  deriving DecidableEq, Repr

namespace Level

/-- The rank of a level. -/
def rank : Level → Nat
  | trace => 0
  | debug => 1
  | info => 2
  | error => 3

/-- The word for a level. -/
def text : Level → Bytes
  | trace => utf8 "trace"
  | debug => utf8 "debug"
  | info => utf8 "info"
  | error => utf8 "error"

/-- The level that a setting names, or the old one. -/
def set (old : Level) (word : Bytes) : Level :=
  if word = utf8 "error" then error
  else if word = utf8 "info" then info
  else if word = utf8 "debug" then debug
  else old

end Level

/-- Where messages go. -/
inductive Target where
  | standardOutput
  /-- A file that keeps what it has. -/
  | appended (path : Bytes)
  /-- A file that starts empty. -/
  | created (path : Bytes)
  deriving DecidableEq, Repr

/-- The target that a path names at a time in seconds. -/
def target (path : Bytes) (seconds : Int) : Target :=
  if path = [] then .standardOutput
  else if (utf8 ".log").isSuffixOf path then .appended path
  else .created
    (path ++ utf8 "_" ++ Bytes.signedDecimal seconds ++ utf8 ".log")

/-- The failure when a target cannot be opened. -/
def Target.fault : Target → Fault
  | standardOutput => .ofText []
  | appended path =>
    .ofText (utf8 "not able to open or create log file: " ++ path)
  | created path => .ofText (utf8 "not able to create log file: " ++ path)

/-- The file of a target. -/
def Target.path? : Target → Option Bytes
  | standardOutput => none
  | appended path | created path => some path

/-- A message. -/
structure Message where
  level : Level
  text : Bytes
  deriving DecidableEq, Repr

/-- The line of a message that is written at an instant, which is told in whole
seconds. -/
def Message.line (m : Message) (now : Instant) : Bytes :=
  let time : Instant := ⟨now.seconds * 1000000000⟩
  Json.writeObject [
    (utf8 "level", Json.quote m.level.text),
    (utf8 "time", Json.quote time.text),
    (utf8 "message", Json.quote m.text)] ++ utf8 "\n"

/-- The messages that a level lets through. -/
def filter (level : Level) (ms : List Message) : List Message :=
  ms.filter fun m => level.rank ≤ m.level.rank

/-- What a target holds when it is opened while it holds `old`, and messages
are written to it. -/
def Target.written (t : Target) (old ms : List Message) : List Message :=
  match t with
  | created _ => ms
  | _ => old ++ ms

/-- The first message of a log. -/
def greeting : Message := ⟨.info, utf8 "logger setup is done"⟩

end Logger
end TickRelay
