import TickRelay.Calendar.Text
import TickRelay.Json.Value

/-!
# Ticks

A tick is one trade report of an instrument: symbol, price, volume, the
timestamp as the provider wrote it, and up to four prices of the bar it belongs
to.

**Results.** `encode?` writes a tick as an object of JSON, and fails exactly
when one of its numbers is not finite; `decode?` reads it back by the rules of
`Json.record`; `time` is the instant of the timestamp, or a given clock when
the timestamp is no written time. Lists of ticks are capped by a number of 64
bits, and `Capacity.surplus?` says how many are beyond the cap. Their number is
a difference of 64 bits. With a negative cap it is greater than the number of
ticks, and there is no answer; only when the difference wraps is nothing
beyond.
-/

namespace TickRelay

/-- A trade report. -/
structure Tick where
  symbol : Bytes := []
  price : Binary64 := .zero
  volume : Binary64 := .zero
  timestamp : Bytes := []
  openPrice : Option Binary64 := none
  highPrice : Option Binary64 := none
  lowPrice : Option Binary64 := none
  closePrice : Option Binary64 := none
  deriving DecidableEq, Inhabited

namespace Tick

/-- The instant of the timestamp. -/
def time? (t : Tick) : Option Instant :=
  (ZonedTime.parse? t.timestamp).map (·.instant)

/-- The instant of the timestamp, or the clock when it cannot be read. -/
def time (clock : Instant) (t : Tick) : Instant := t.time?.getD clock

/-- The members of a tick. -/
def members : List (Json.Member Tick) := [
  .of "symbol" (·.symbol) ({ · with symbol := · }) Json.text,
  .of "price" (·.price) ({ · with price := · }) Json.float,
  .of "volume" (·.volume) ({ · with volume := · }) Json.float,
  .of "timestamp" (·.timestamp) ({ · with timestamp := · }) Json.text,
  .of "open" (·.openPrice) ({ · with openPrice := · }) Json.optionalFloat,
  .of "high" (·.highPrice) ({ · with highPrice := · }) Json.optionalFloat,
  .of "low" (·.lowPrice) ({ · with lowPrice := · }) Json.optionalFloat,
  .of "close" (·.closePrice) ({ · with closePrice := · }) Json.optionalFloat]

/-- Reads a tick over an older one. -/
def reader : Json.ValueReader Tick := Json.record .loose members

/-- The tick that a text holds. -/
def decode? (s : Bytes) : Option Tick := Json.decode reader {} s

/-- A member for a price that may be missing. -/
def optionalMember? (name : String) :
    Option Binary64 → Option (List (Bytes × Bytes))
  | none => some []
  | some x => (Json.writeFloat? x).map fun s => [(utf8 name, s)]

/-- The written members, if all numbers are finite. -/
def writtenMembers? (t : Tick) : Option (List (Bytes × Bytes)) := do
  let price ← Json.writeFloat? t.price
  let volume ← Json.writeFloat? t.volume
  let o ← optionalMember? "open" t.openPrice
  let h ← optionalMember? "high" t.highPrice
  let l ← optionalMember? "low" t.lowPrice
  let c ← optionalMember? "close" t.closePrice
  some ([(utf8 "symbol", Json.quote t.symbol), (utf8 "price", price),
    (utf8 "volume", volume), (utf8 "timestamp", Json.quote t.timestamp)] ++
    o ++ h ++ l ++ c)

/-- The written form, if all numbers are finite. -/
def encode? (t : Tick) : Option Bytes := t.writtenMembers?.map Json.writeObject

end Tick

namespace Capacity

/-- How many of `n` ticks are beyond a cap. -/
def surplus? (cap : Int64) (n : Nat) : Option Nat :=
  if 0 ≤ cap then some (n - cap.toInt.toNat)
  else if (n : Int) - cap.toInt < (Nat.pow 2 63 : Nat) then none
  else some 0

/-- There always is an answer for a cap that is not negative. -/
theorem surplus?_of_nonneg {cap : Int64} (h : 0 ≤ cap) (n : Nat) :
    surplus? cap n = some (n - cap.toInt.toNat) := by
  simp [surplus?, h]

end Capacity

end TickRelay
