import TickRelay.Fault
import TickRelay.Symbol
import TickRelay.Text.Quoted
import TickRelay.Tick

/-!
# Frames of the provider

**Input.** One message of the provider and the clock.

**Algorithm.** The message is an object with a type and a tick as payload.
Types other than `price_update` and `history` are refused, as are ticks whose
symbol has an empty normal form. A live tick without timestamp gets the clock;
a history tick without one is refused.

**Results.** `Frame.parse` gives the tick with its normal symbol, or the reason
for refusal.
-/

namespace TickRelay
namespace Feed

/-- Live ticks are sent as they happen, history on request. -/
inductive Channel where
  | live
  | history
  deriving DecidableEq, Repr

/-- Why a message of the provider is refused. -/
inductive FrameError where
  | malformed
  | unsupported (kind : Bytes)
  | emptySymbol
  | untimedHistory
  deriving DecidableEq, Repr

namespace FrameError

/-- The reason in words. -/
def reason : FrameError → Bytes
  | malformed => utf8 "malformed JSON"
  | unsupported kind => utf8 "unsupported frame type " ++ Text.quoted kind
  | emptySymbol => utf8 "empty symbol"
  | untimedHistory => utf8 "history tick without timestamp"

/-- The fault that is reported. -/
def fault (e : FrameError) : Fault :=
  (Fault.ofText e.reason).within (.parse (utf8 "feed"))

end FrameError

/-- A message of the provider before it is checked. -/
structure Frame where
  kind : Bytes := []
  payload : Tick := {}
  deriving DecidableEq

namespace Frame

/-- The members of a message. -/
def members : List (Json.Member Frame) := [
  .of "type" (·.kind) ({ · with kind := · }) Json.text,
  .of "payload" (·.payload) ({ · with payload := · }) Tick.reader]

/-- The message that a text holds. -/
def decode? (s : Bytes) : Option Frame :=
  Json.decode (Json.record .loose members) {} s

/-- The channel that a type names. -/
def channel? (kind : Bytes) : Option Channel :=
  if kind = utf8 "price_update" then some .live
  else if kind = utf8 "history" then some .history
  else none

/-- The tick of a message and its channel. -/
def parse (clock : Instant) (s : Bytes) : Except FrameError (Tick × Channel) :=
  match decode? s with
  | none => .error .malformed
  | some f =>
    match channel? f.kind with
    | none => .error (.unsupported f.kind)
    | some channel =>
      let tick := { f.payload with
        symbol := Symbol.normalize f.payload.symbol }
      if tick.symbol = [] then .error .emptySymbol
      else if tick.timestamp ≠ [] then .ok (tick, channel)
      else match channel with
        | .history => .error .untimedHistory
        | .live => .ok ({ tick with timestamp := clock.text }, .live)

end Frame
end Feed
end TickRelay
