import TickRelay.Binary64.Reading

/-!
# Numbers of JSON

**Input.** The bytes at the first character of a number. A text may arrive in
blocks, and `Reach` says how much of it is there when a number begins.

**Algorithm.** Fractional numbers have a quick form: digits, or digits, a point
and one to six digits, ended by a separator, whose digits fit in 64 bits. It is
read as one integer divided by a power of ten, which rounds twice. Everything
else, and a number whose end is not there yet, is the longest run of number
characters, read to the nearest number. Integers accumulate in 64 bits; a wrap
is noticed only when the result is smaller than the number before the last
digit.

**Results.** `readFloat` and `readInteger` give the number and what follows it.
-/

namespace TickRelay
namespace Json

/-- A byte that ends a quickly read number. -/
def isSeparator (b : UInt8) : Bool :=
  b == 44 || b == 93 || b == 125 || b == 32 || b == 9 || b == 10

/-- A byte that may stand in a number. -/
def isNumberByte (b : UInt8) : Bool :=
  Bytes.isDigit b || b == 43 || b == 45 || b == 46 || b == 101 || b == 69

/-- The greatest number that may take one more digit in 64 bits without a
check. -/
def safeNumber : Nat := 1844674407370955160

/-- The number of some digits, if each prefix but the last is safe. -/
def safeValue? (ds : Bytes) : Option Nat :=
  ds.foldlM (fun n b =>
    if n ≤ safeNumber then some (10 * n + Bytes.digitValue b) else none) 0

/-- A fractional number as it was recognised. -/
inductive FloatToken where
  /-- `value / 10 ^ places`, rounded as a number and again as a quotient. -/
  | quick (value places : Nat)
  /-- Any other text. -/
  | text (s : Bytes)
  deriving DecidableEq, Repr

namespace FloatToken

/-- The nearest number, if it is not too large. -/
def value? : FloatToken → Option Binary64
  | quick n 0 => some (.ofInt n)
  | quick n places =>
    some (Binary64.div (.ofInt n) (.ofInt (Nat.pow 10 places : Nat)))
  | text s => Binary64.ofText? s

/-- Whether the number fits in 32 bits after rounding. -/
def fitsSingle : FloatToken → Bool
  | quick _ _ => true
  | text s => Binary64.fitsSingle s

end FloatToken

/-- How many of the next bytes are there; `none` stands for all of them. -/
abbrev Reach := Option Nat

namespace Reach

/-- Whether so many bytes are there. -/
def covers (r : Reach) (n : Nat) : Bool := r.all (n ≤ ·)

/-- The reach after one byte more. -/
def next (r : Reach) : Reach := r.map (· - 1)

end Reach

/-- The quick form, with what follows its end. -/
def quickFloat? (reach : Reach) (s : Bytes) : Option (FloatToken × Bytes) :=
  let whole := s.takeWhile Bytes.isDigit
  match s.dropWhile Bytes.isDigit with
  | [] => none
  | c :: t =>
    if isSeparator c ∧ reach.covers (whole.length + 1) then
      (safeValue? whole).map fun n => (.quick n 0, c :: t)
    else if c = 46 then
      let fraction := t.takeWhile Bytes.isDigit
      match t.dropWhile Bytes.isDigit with
      | [] => none
      | d :: u =>
        if isSeparator d ∧ fraction ≠ [] ∧ fraction.length ≤ 6 ∧
            reach.covers (whole.length + fraction.length + 2) then
          (safeValue? (whole ++ fraction)).map fun n =>
            (.quick n fraction.length, d :: u)
        else none
    else none

/-- Whether the first point of a text, if any, has a digit after it. -/
def pointIsFollowed (s : Bytes) : Bool :=
  match s.dropWhile (· != 46) with
  | [] => true
  | _ :: [] => false
  | _ :: b :: _ => Bytes.isDigit b

/-- The longest run of number characters. -/
def slowFloat? (s : Bytes) : Option (FloatToken × Bytes) :=
  let run := s.takeWhile isNumberByte
  if run ≠ [] ∧ run.head? ≠ some 45 ∧ pointIsFollowed run then
    some (.text run, s.dropWhile isNumberByte)
  else none

/-- Whether a number starts badly: a zero before another digit, a point and a
separator cannot start one. What is not there yet is not looked at. -/
def startsBadly (reach : Reach) : Bytes → Bool
  | [] => false
  | c :: t =>
    reach.covers 1 &&
      (isSeparator c || c == 46 ||
        (c == 48 && reach.covers 2 && t.head?.any Bytes.isDigit))

/-- A number without its minus sign. -/
def floatToken? (reach : Reach) (s : Bytes) : Option (FloatToken × Bytes) :=
  if startsBadly reach s then none
  else match quickFloat? reach s with
    | some r => some r
    | none => slowFloat? s

/-- A fractional number with an optional minus sign. -/
def readFloat (reach : Reach) (s : Bytes) : Option (Binary64 × Bytes) :=
  match s with
  | 45 :: t => do
    let (token, rest) ← floatToken? reach.next t
    let x ← token.value?
    some (x.neg, rest)
  | _ => do
    let (token, rest) ← floatToken? reach s
    let x ← token.value?
    some (x, rest)

/-- One more digit in 64 bits; a wrap is refused when the result is smaller. -/
def pushDigit (n : UInt64) (b : UInt8) : Option UInt64 :=
  let m := n * 10 + UInt64.ofNat (Bytes.digitValue b)
  if n.toNat > safeNumber ∧ m < n then none else some m

/-- Digits without a sign. A zero is a number by itself, and no point may
follow. -/
def readNatural (s : Bytes) : Option (UInt64 × Bytes) :=
  match s with
  | [] => none
  | c :: t =>
    let (ds, rest) :=
      if c = 48 then ([c], t)
      else (s.takeWhile Bytes.isDigit, s.dropWhile Bytes.isDigit)
    if ds = [] ∨ rest.head? = some 46 then none
    else (ds.foldlM pushDigit 0).map fun n => (n, rest)

/-- An integer of 64 bits with an optional minus sign right before its
digits. -/
def readInteger (s : Bytes) : Option (Int64 × Bytes) :=
  match s with
  | 45 :: t => do
    let (n, rest) ← readNatural t
    if n.toNat ≤ Nat.pow 2 63 then some (Int64.ofInt (-(n.toNat : Int)), rest)
    else none
  | _ => do
    let (n, rest) ← readNatural s
    if n.toNat < Nat.pow 2 63 then some (Int64.ofInt n.toNat, rest) else none

end Json
end TickRelay
