import TickRelay.Feed.Client
import TickRelay.Feed.Retry

/-!
# The run loop of the feed

The loop waits until a connection is asked for and then opens session after
session. It ends when its context is canceled, when the client is stopped, or
when it gives up. A client that was stopped reports no failure.
-/

namespace TickRelay
namespace Feed

/-- Where the loop stands. -/
inductive Loop where
  | notStarted
  /-- Waiting until a connection is asked for. -/
  | waiting
  /-- Opening sessions, with the losses so far. -/
  | dialing (losses : Nat)
  /-- In a session. -/
  | connected (losses : Nat)
  | exited (failure : Option Fault)
  deriving DecidableEq

/-- The client, its loop, and whether the context of the loop is canceled. -/
structure Runner where
  client : Client
  retry : Config.Retry
  loop : Loop := .notStarted
  isCanceled : Bool := false
  deriving DecidableEq

namespace Runner

/-- The failure of a canceled loop. -/
def exitFailure (r : Runner) : Option Fault :=
  if r.client.isStopped then none else some (.ofText (utf8 "context canceled"))

/-- Ends the loop because its context is done. -/
def exit (r : Runner) : Runner :=
  { r with loop := .exited r.exitFailure, client := r.client.closeSession }

/-- Starts the loop. A client that is stopped already ends it at once. -/
def start (r : Runner) : Runner :=
  if r.client.isStopped then { r with loop := .exited none }
  else { r with loop := .waiting }

/-- Whether the context of the loop is done. -/
def isDone (r : Runner) : Bool := r.isCanceled || r.client.isStopped

/-- A session that ended after some nanoseconds. -/
def sessionEnded (r : Runner) (losses : Nat) (lasted : Int) : Runner :=
  let r := { r with client := r.client.closeSession }
  if r.isDone then r.exit
  else match Retry.afterSession r.retry losses lasted with
    | .giveUp => { r with loop := .exited (some (Retry.gaveUp r.retry)) }
    | .wait n => { r with loop := .dialing n }

/-- Where the loop comes to when every session fails at once. -/
def surrender (r : Runner) : Runner :=
  if Retry.givesUp r.retry then { r with
    loop := .exited (some (Retry.gaveUp r.retry)) }
  else { r with loop := .dialing 0 }

/-- Where the loop comes to by itself while the provider cannot be reached and
nothing else happens. -/
def settle (r : Runner) : Runner :=
  match r.loop with
  | .waiting =>
    if r.isDone then r.exit
    else if r.client.isWanted then r.surrender else r
  | .dialing _ => if r.isDone then r.exit else r.surrender
  | _ => r

/-- Whether the loop has ended. -/
def hasExited (r : Runner) : Bool :=
  match r.loop with
  | .exited _ => true
  | _ => false

/-- The failure with which the loop ended. -/
def failure? (r : Runner) : Option Fault :=
  match r.loop with
  | .exited failure => failure
  | _ => none

end Runner
end Feed
end TickRelay
