import TickRelay.Json.Number

/-!
# Numbers that nothing reads

**Input.** The bytes at the first character of a number, and how much of the
text is there.

**Algorithm.** A number that starts with a zero has to fit in 32 bits. Of any
other number the digits are looked at first: when only digits with at most one
point stand before its end, it is taken as it is, and a point that cannot stand
where it is makes it wrong. Otherwise it has to read as a fractional number.
One that only starts badly after its minus sign may also be a number of the
wide format.

**Results.** `skipNumber` gives the text after the number; `isDelicate` says
for which numbers it matters how much of the text is there.
-/

namespace TickRelay
namespace Json

/-- The text after a number of the wide format. -/
def skipWide (s : Bytes) : Option Bytes :=
  match DecimalText.parse? (s.takeWhile isNumberByte) with
  | some d => if d.fitsWide then some (s.dropWhile isNumberByte) else none
  | none => none

/-- The text after a number that has to read as one. -/
def skipFloat (reach : Reach) (s : Bytes) : Option Bytes :=
  match s with
  | 45 :: t =>
    if startsBadly reach.next t then skipWide t
    else (readFloat reach s).map (·.2)
  | _ => (readFloat reach s).map (·.2)

/-- A byte after which a skipped number ends. -/
def endsSkipped (b : UInt8) : Bool := isSeparator b || b == 13

/-- What a look at the digits of a number finds. -/
inductive DigitScan where
  /-- Digits with at most one point; their number, with the byte after them,
  and what follows. -/
  | plain (length : Nat) (rest : Bytes)
  /-- A point that cannot stand where it is, after so many bytes. -/
  | misplaced (length : Nat)
  /-- Anything else. -/
  | other
  deriving DecidableEq, Repr

/-- Looks at the digits after the first byte of a number. -/
def scanDigits (s : Bytes) : DigitScan :=
  let whole := s.takeWhile Bytes.isDigit
  match s.dropWhile Bytes.isDigit with
  | [] => .other
  | c :: t =>
    if c = 46 then
      let fraction := t.takeWhile Bytes.isDigit
      match t with
      | [] => .other
      | _ :: _ =>
        if fraction = [] then .misplaced (whole.length + 2)
        else match t.dropWhile Bytes.isDigit with
          | [] => .other
          | d :: u =>
            let length := whole.length + fraction.length + 2
            if d = 46 then .misplaced length
            else if endsSkipped d then .plain length (d :: u)
            else .other
    else if endsSkipped c ∧ whole ≠ [] then .plain (whole.length + 1) (c :: t)
    else .other

/-- The text after a number that starts with a minus sign or with `1` to
`9`. -/
def skipSigned (reach : Reach) (s : Bytes) : Option Bytes :=
  match scanDigits (s.drop 1) with
  | .plain n rest =>
    if reach.covers (n + 1) then some rest else skipFloat reach s
  | .misplaced n => if reach.covers (n + 1) then none else skipFloat reach s
  | .other => skipFloat reach s

/-- The text after a number that starts with a zero, which has to fit in 32
bits. -/
def skipZero (reach : Reach) (s : Bytes) : Option Bytes :=
  match floatToken? reach s with
  | some (number, rest) => if number.fitsSingle then some rest else none
  | none => none

/-- The text after a number that nobody asks for. -/
def skipNumber (reach : Reach) (s : Bytes) : Option Bytes :=
  if s.head? = some 48 then skipZero reach s else skipSigned reach s

/-- Whether the way a number is skipped may depend on where blocks end. One
that starts well and has fewer than 300 bytes is skipped alike in any case. -/
def isDelicate (s : Bytes) : Bool :=
  let t := match s with
    | 45 :: t => t
    | _ => s
  startsBadly none t || !((t.takeWhile isNumberByte).drop 299).isEmpty

end Json
end TickRelay
