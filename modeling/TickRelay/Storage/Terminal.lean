import TickRelay.Tick
import TickRelay.Fault

/-!
# Ticks on a terminal

Every tick is one line of five columns: the word `Tick`, symbol, price, volume
and time of day. The first two columns are filled on the right to 15
characters, the others on the left to 20. A character is a code point or a byte
outside of all code points. Numbers have six decimal places.

A commit writes line after line and stops at the first write that fails.
-/

namespace TickRelay
namespace Storage
namespace Terminal

/-- The name of the storage. -/
def name : Bytes := utf8 "terminal"

/-- A column filled on the right. -/
def leftColumn (s : Bytes) : Bytes := Bytes.padRight 15 (Utf8.runes s).length s

/-- A column filled on the left. -/
def rightColumn (s : Bytes) : Bytes := Bytes.padLeft 20 (Utf8.runes s).length s

/-- The line of a tick. -/
def line (clock : Instant) (t : Tick) : Bytes :=
  leftColumn (utf8 "Tick") ++ leftColumn t.symbol ++
    rightColumn (t.price.fixedText 6) ++
    rightColumn (t.volume.fixedText 6) ++
    rightColumn ((t.time clock).civil.clockText 3) ++ utf8 "\n"

/-- The failure of a write. -/
def writeFailure : Fault := .ofText (utf8 "write failed")

/-- Writes ticks to an output that takes `accepts` more writes (any number for
`none`): what was written, and the failure of the write that was refused. -/
def commit (clock : Instant) : Option Nat → List Tick → Bytes × Option Fault
  | _, [] => ([], none)
  | some 0, _ :: _ => ([], some writeFailure)
  | accepts, t :: ts =>
    let (out, fault) := commit clock (accepts.map (· - 1)) ts
    (line clock t ++ out, fault)

end Terminal
end Storage
end TickRelay
