import Std.Time.DateTime.Timestamp
import TickRelay.CommandLine

/-!
# The command

The outer layer of the command: it reads the arguments, the configuration and
the clock, opens the log, and prints how the command ended. It has no sockets,
so the provider and every storage but the terminal count as unreachable; the
feed dials until it gives up.
-/

namespace TickRelay
namespace CommandLine

/-- The bytes of a file. -/
def readFile (path : Bytes) : IO (Option Bytes) := do
  match String.fromUTF8? (ByteArray.mk path.toArray) with
  | none => return none
  | some name =>
    try
      return some (← IO.FS.readBinFile name).toList
    catch
      | .noFileOrDirectory .. => return none
      -- What can be opened but not read is like an empty text.
      | _ => return some []

/-- The clock. -/
def clock : IO Instant := do
  return ⟨(← Std.Time.Timestamp.now).toNanosecondsSinceUnixEpoch.val⟩

/-- Opens a log and writes a line to it; tells whether that could be done. -/
def openLog (target : Logger.Target) (line : Bytes) : IO Bool := do
  let mode : IO.FS.Mode := match target with
    | .created _ => .write
    | _ => .append
  let bytes := ByteArray.mk line.toArray
  match target.path? with
  | none =>
    (← IO.getStdout).write bytes
    return true
  | some path =>
    match String.fromUTF8? (ByteArray.mk path.toArray) with
    | none => return false
    | some name =>
      try
        IO.FS.withFile name mode (·.write bytes)
        return true
      catch _ => return false

/-- Dials a provider that cannot be reached until the feed gives up. -/
partial def dial (retry : Config.Retry) (losses : Nat) : IO Ending := do
  match Feed.Retry.afterSession retry losses 0 with
  | .giveUp => return fail (Feed.Retry.gaveUp retry).text
  | .wait n =>
    let (lo, hi) := Feed.Retry.delays retry n
    let delay ← IO.rand lo.toInt.toNat hi.toInt.toNat
    IO.sleep (UInt32.ofNat (min (delay / 1000000) 0xFFFFFFFF))
    dial retry n

/-- Waits for a connection that nobody asks for. -/
partial def wait : IO Ending := do
  IO.sleep 60000
  wait

/-- Runs the command with the configuration at a path. -/
def run (path : Bytes) : IO Ending := do
  let content ← readFile path
  let now ← clock
  let config := (Config.load content).toOption.getD {}
  let target := Logger.target config.log.filePath now.seconds
  let level := Logger.Level.set .trace config.log.level
  let lines := (Logger.filter level [Logger.greeting]).flatMap (·.line now)
  let isLoaded := (Config.load content).toOption.isSome
  let canLog ← if isLoaded then openLog target lines else pure true
  let surroundings : Surroundings := {
    read := fun _ => content
    canLog := fun _ => canLog
    reachable := fun k => k = .terminal
    now := now }
  match start surroundings path with
  | .error e => return e
  | .ok a =>
    if a.config.feed.connectOnStart then dial a.config.feed.retry 0 else wait

end CommandLine
end TickRelay

/-- The command. -/
def main (args : List String) : IO UInt32 := do
  let program := TickRelay.utf8 (toString (← IO.appPath))
  let intent := TickRelay.CommandLine.parse (args.map TickRelay.utf8)
  let ending ← match intent with
    | .run path => TickRelay.CommandLine.run path
    | intent => pure ((intent.ending? program).getD ⟨0, []⟩)
  (← IO.getStderr).write (ByteArray.mk ending.complaint.toArray)
  return UInt32.ofNat ending.code
