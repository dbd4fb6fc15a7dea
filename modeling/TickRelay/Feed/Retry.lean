import TickRelay.Config.Basic
import TickRelay.Fault
import TickRelay.Feed.Backoff

/-!
# Reconnecting

After each session that ends, the losses in a row are counted; a session that
lasted long enough starts the count anew. When there are more losses than
allowed the feed gives up, else it waits before the next session.

**Results.** `afterSession` is the decision after one session, `giveUpAfter?`
the number of sessions after which a sequence of them makes the feed give up.
-/

namespace TickRelay
namespace Feed
namespace Retry

/-- What is done after a session. -/
inductive Decision where
  | giveUp
  /-- Wait, with the new count of losses. -/
  | wait (losses : Nat)
  deriving DecidableEq, Repr

/-- The time in 64-bit nanoseconds after which a session counts as long. -/
def resetAfter (r : Config.Retry) : Int64 := r.resetSec * 1000000000

/-- Whether a session of some nanoseconds starts the count anew. -/
def isReset (r : Config.Retry) (lasted : Int) : Bool :=
  0 < r.resetSec && (resetAfter r).toInt ≤ lasted

/-- The decision after a session, with the count of losses before it. -/
def afterSession (r : Config.Retry) (losses : Nat) (lasted : Int) : Decision :=
  let losses := (if isReset r lasted then 0 else losses) + 1
  if 0 < r.number ∧ r.number.toInt < losses then .giveUp else .wait losses

/-- How long to wait at first and at most. -/
def backoff (r : Config.Retry) : Backoff :=
  ⟨r.baseMs * 1000000, r.maxSec * 1000000000⟩

/-- The attempt that a count of losses leads to, numbered from zero. -/
def attempt (losses : Nat) : Int := losses - 1

/-- The shortest and the longest wait with a count of losses. -/
def delays (r : Config.Retry) (losses : Nat) : Int64 × Int64 :=
  (backoff r).delays (attempt losses)

/-- The number of sessions after which the feed gives up. -/
def giveUpAfter? (r : Config.Retry) (losses : Nat) : List Int → Option Nat
  | [] => none
  | lasted :: rest =>
    match afterSession r losses lasted with
    | .giveUp => some 1
    | .wait n => (giveUpAfter? r n rest).map (· + 1)

/-- Whether a feed gives up at some time when every session fails at once. -/
def givesUp (r : Config.Retry) : Bool := 0 < r.number && !isReset r 0

/-- The failure of a feed that gave up. -/
def gaveUp (r : Config.Retry) : Fault :=
  .ofText (utf8 "not able to connect feed even after " ++
    Bytes.signedDecimal r.number.toInt ++
    utf8 " retry. please check the log for details")

end Retry
end Feed
end TickRelay
