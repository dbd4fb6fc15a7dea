import TickRelay.Bytes

/-!
# UTF-8

**Input.** Bytes, valid or not.

**Algorithm.** Two readings of the same grammar. `scalar?` looks at the head of
a text and takes one code point off it. `State.step` is a machine that takes
one byte at a time, for text that arrives in pieces; it refuses a byte as soon
as no valid text continues that way.

**Results.** `scalars` reads a whole text, every byte that belongs to no code
point as U+FFFD; `encode` writes characters back; `isValid` says whether a text
is valid.
-/

namespace TickRelay
namespace Utf8

/-- The replacement character U+FFFD. -/
def replacement : Char := Char.ofNat 0xFFFD

/-- The bytes of some characters. -/
def encode (cs : List Char) : Bytes := cs.flatMap String.utf8EncodeChar

/-- A byte that continues a code point. -/
def isTail (b : UInt8) : Bool := 0x80 ≤ b && b ≤ 0xBF

/-- The lower six bits of a tail byte. -/
def tailBits (b : UInt8) : Nat := b.toNat % 64

/-- The code point at the head of a text and the number of its bytes. Overlong
forms, surrogates and numbers above U+10FFFF are refused by the range of the
second byte. -/
def scalar? : Bytes → Option (Char × Nat)
  | [] => none
  | a :: s =>
    if a ≤ 0x7F then some (Char.ofNat a.toNat, 1)
    else if 0xC2 ≤ a && a ≤ 0xDF then
      match s with
      | b :: _ =>
        if isTail b then some (Char.ofNat (a.toNat % 32 * 64 + tailBits b), 2)
        else none
      | _ => none
    else if 0xE0 ≤ a && a ≤ 0xEF then
      match s with
      | b :: c :: _ =>
        let low : UInt8 := if a == 0xE0 then 0xA0 else 0x80
        let high : UInt8 := if a == 0xED then 0x9F else 0xBF
        if low ≤ b && b ≤ high && isTail c then
          some (Char.ofNat
            (a.toNat % 16 * 4096 + tailBits b * 64 + tailBits c), 3)
        else none
      | _ => none
    else if 0xF0 ≤ a && a ≤ 0xF4 then
      match s with
      | b :: c :: d :: _ =>
        let low : UInt8 := if a == 0xF0 then 0x90 else 0x80
        let high : UInt8 := if a == 0xF4 then 0x8F else 0xBF
        if low ≤ b && b ≤ high && isTail c && isTail d then
          some (Char.ofNat
            (a.toNat % 8 * 262144 + tailBits b * 4096 + tailBits c * 64 +
              tailBits d), 4)
        else none
      | _ => none
    else none

/-- Reads a text whose first `skip` bytes belong to a code point already read;
`none` stands for a byte that belongs to no code point. -/
def runesFrom : Nat → Bytes → List (Option Char)
  | _, [] => []
  | k + 1, _ :: s => runesFrom k s
  | 0, a :: s =>
    match scalar? (a :: s) with
    | some (c, width) => some c :: runesFrom (width - 1) s
    | none => none :: runesFrom 0 s

/-- The code points of a text, with `none` for each byte outside of them. -/
def runes (s : Bytes) : List (Option Char) := runesFrom 0 s

/-- The characters of a text, with U+FFFD for each byte that belongs to
none. -/
def scalars (s : Bytes) : List Char := (runes s).map (·.getD replacement)

/-- The text with U+FFFD in place of each byte that belongs to no code
point. -/
def repair (s : Bytes) : Bytes := encode (scalars s)

/-- What the machine still expects of the code point it is in. -/
inductive State where
  /-- Between two code points. -/
  | start
  /-- One tail byte is owed. -/
  | tail1
  /-- Two tail bytes are owed. -/
  | tail2
  /-- Three tail bytes are owed. -/
  | tail3
  /-- A byte from A0 to BF, then one tail byte. -/
  | afterE0
  /-- A byte from 80 to 9F, then one tail byte. -/
  | afterED
  /-- A byte from 90 to BF, then two tail bytes. -/
  | afterF0
  /-- A byte from 80 to 8F, then two tail bytes. -/
  | afterF4
  deriving DecidableEq, Repr

namespace State

/-- One byte; `none` when no valid text continues that way. -/
def step : State → UInt8 → Option State
  | start, b =>
    if b ≤ 0x7F then some start
    else if 0xC2 ≤ b && b ≤ 0xDF then some tail1
    else if b == 0xE0 then some afterE0
    else if b == 0xED then some afterED
    else if 0xE1 ≤ b && b ≤ 0xEF then some tail2
    else if b == 0xF0 then some afterF0
    else if b == 0xF4 then some afterF4
    else if 0xF1 ≤ b && b ≤ 0xF3 then some tail3
    else none
  | tail1, b => if isTail b then some start else none
  | tail2, b => if isTail b then some tail1 else none
  | tail3, b => if isTail b then some tail2 else none
  | afterE0, b => if 0xA0 ≤ b && b ≤ 0xBF then some tail1 else none
  | afterED, b => if 0x80 ≤ b && b ≤ 0x9F then some tail1 else none
  | afterF0, b => if 0x90 ≤ b && b ≤ 0xBF then some tail2 else none
  | afterF4, b => if 0x80 ≤ b && b ≤ 0x8F then some tail2 else none

/-- Several bytes, up to the first one refused. -/
def run (q : State) (s : Bytes) : Option State := s.foldlM step q

end State

/-- Whether a text is valid UTF-8. -/
def isValid (s : Bytes) : Bool := State.run .start s == some .start

end Utf8
end TickRelay
