import TickRelay.App
import TickRelay.Logger

/-!
# The command line

The command takes one option, the path of the configuration. Options start with
one or two minus signs; the value follows after an equals sign or as the next
argument. Arguments after the options are not looked at.

**Results.** `parse` reads the arguments; `start` sets the application up from
the content of the configuration, or tells how the command ends.
-/

namespace TickRelay
namespace CommandLine

/-- What the arguments ask for. -/
inductive Intent where
  /-- Run with the configuration at a path. -/
  | run (path : Bytes)
  /-- Explain the options. -/
  | help
  /-- The arguments make no sense. -/
  | refuse (complaint : Bytes)
  deriving DecidableEq, Repr

/-- The path when none is given. -/
def defaultPath : Bytes := utf8 "./config.json"

/-- The explanation of the options. -/
def usage (program : Bytes) : Bytes :=
  utf8 "Usage of " ++ program ++
    utf8 ":\n  -config string\n    \tpath to the JSON config file (default \"" ++
    defaultPath ++ utf8 "\")\n"

/-- The name of an option without its minus signs; `none` for an argument that
is no option. -/
def optionName? : Bytes → Option Bytes
  | 45 :: 45 :: name => some name
  | 45 :: b :: name => some (b :: name)
  | _ => none

/-- The name and the value, if it is part of the argument. -/
def splitOption (name : Bytes) : Bytes × Option Bytes :=
  if name.contains 61 then
    let (key, value) := Bytes.cut 61 name
    (key, some value)
  else (name, none)

/-- Reads arguments; `path` is the path so far, and `isOpen` says that the next
argument is a path. -/
def parseFrom : Bytes → Bool → List Bytes → Intent
  | path, false, [] => .run path
  | _, true, [] => .refuse (utf8 "flag needs an argument: -config")
  | _, true, value :: rest => parseFrom value false rest
  | path, false, a :: rest =>
    if a = utf8 "--" then .run path
    else match optionName? a with
      | none => .run path
      | some name =>
        if name = [] ∨ name.head? = some 45 ∨ name.head? = some 61 then
          .refuse (utf8 "bad flag syntax: " ++ a)
        else
          let (key, value) := splitOption name
          if key = utf8 "config" then
            parseFrom (value.getD path) value.isNone rest
          else if key = utf8 "help" ∨ key = utf8 "h" then .help
          else .refuse (utf8 "flag provided but not defined: -" ++ key)

/-- Reads arguments. -/
def parse (args : List Bytes) : Intent := parseFrom defaultPath false args

/-- How the command ends: its exit code and what it complains about. -/
structure Ending where
  code : Nat
  complaint : Bytes
  deriving DecidableEq, Repr

/-- The end with a complaint on a line of its own. -/
def fail (text : Bytes) : Ending := ⟨1, text ++ utf8 "\n"⟩

/-- The end when the arguments lead to no run. -/
def Intent.ending? (program : Bytes) : Intent → Option Ending
  | run _ => none
  | help => some ⟨0, usage program⟩
  | refuse complaint => some ⟨2, complaint ++ utf8 "\n" ++ usage program⟩

/-- What the command finds outside. -/
structure Surroundings where
  /-- The content of a file, if it can be read. -/
  read : Bytes → Option Bytes
  /-- Whether a log can be opened. -/
  canLog : Logger.Target → Bool
  /-- Whether a storage can be reached. -/
  reachable : StorageKind → Bool
  now : Instant

/-- Sets the application up. -/
def start (s : Surroundings) (path : Bytes) : Except Ending App :=
  match Config.load (s.read path) with
  | .error .malformed => .error ⟨1, Config.LoadError.malformed.text path⟩
  | .error e => .error (fail (e.text path))
  | .ok c =>
    let target := Logger.target c.log.filePath s.now.seconds
    if !s.canLog target then .error (fail target.fault.text)
    else match App.build c s.now s.reachable [] with
      | .error (.unreachable kind) => .error (fail kind.connectionText)
      | .error .noRoom => .error ⟨2, utf8 "no room for the buffers\n"⟩
      | .ok a => .ok a

/-- The failure with which a feed ends whose provider cannot be reached. -/
def feedFailure? (a : App) : Option Fault :=
  let wanted :=
    if a.config.feed.connectOnStart then a.hub.feed.connect else a.hub.feed
  let r : Feed.Runner := { client := wanted, retry := a.config.feed.retry }
  r.start.settle.failure?

end CommandLine
end TickRelay
