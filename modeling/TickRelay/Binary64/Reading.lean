import TickRelay.Bytes
import TickRelay.Binary64.Basic

/-!
# Reading numbers

**Input.** Text of the form `[+-] digits [. digits] [e [+-] digits]`, with at
least one digit before the exponent and one in it.

**Algorithm.** The number is `0.d₁d₂… * 10 ^ scale`, where the first digit is
no zero. Only 800 digits and a last one that tells whether anything else
follows are looked at: the middle between two neighbours never has as many. The
exponent stops growing above 9999, so that it is not exact in a text that makes
up for a great exponent by as many zeros.

**Results.** `ofText?` is the nearest number, a half to even; text of another
form, and text whose number is too large, is refused. `fitsSingle` says the
same of the format of 32 bits, and `DecimalText.fitsWide` of one that is wider
than both.
-/

namespace TickRelay

/-- The parts of a decimal text. -/
structure DecimalText where
  negative : Bool
  whole : Bytes
  fraction : Bytes
  /-- Whether the exponent has a minus sign. -/
  lowers : Bool
  /-- The digits of the exponent; none without one. -/
  exponent : Bytes
  deriving DecidableEq, Repr

namespace DecimalText

/-- An optional sign; `true` for minus. -/
def sign : Bytes → Bool × Bytes
  | 43 :: s => (false, s)
  | 45 :: s => (true, s)
  | s => (false, s)

/-- The sign and the digits of the exponent, which is the whole rest of the
text. -/
def exponent? : Bytes → Option (Bool × Bytes)
  | [] => some (false, [])
  | c :: s =>
    if c = 101 ∨ c = 69 then
      let (negative, ds) := sign s
      if ds ≠ [] ∧ ds.all Bytes.isDigit then some (negative, ds) else none
    else none

/-- The parts of a text. -/
def parse? (s : Bytes) : Option DecimalText :=
  let (negative, s) := sign s
  let whole := s.takeWhile Bytes.isDigit
  let s := s.dropWhile Bytes.isDigit
  let (fraction, s) := match s with
    | 46 :: t => (t.takeWhile Bytes.isDigit, t.dropWhile Bytes.isDigit)
    | t => ([], t)
  if whole ++ fraction = [] then none
  else (exponent? s).map fun e => ⟨negative, whole, fraction, e.1, e.2⟩

/-- The digits of a text from the first that is no zero. -/
def withoutZeros (ds : Bytes) : Bytes := ds.dropWhile (· == 48)

/-- The digits of the number without its point. -/
def significant (d : DecimalText) : Bytes :=
  withoutZeros (d.whole ++ d.fraction)

/-- The digits that decide how the number is rounded. -/
def deciding (d : DecimalText) : Bytes :=
  let ds := d.significant
  if ds.length ≤ 800 then ds
  else ds.take 800 ++ [if (ds.drop 800).all (· == 48) then 48 else 49]

/-- The exponent; digits after a number above 9999 count for nothing. -/
def power (d : DecimalText) : Int :=
  let push (n : Nat) (b : UInt8) : Nat :=
    if n < 10000 then 10 * n + Bytes.digitValue b else n
  let n := d.exponent.foldl push 0
  if d.lowers then -(n : Int) else n

/-- The power of ten of the number whose digits stand after a point. -/
def scale (d : DecimalText) : Int :=
  d.power - d.fraction.length + d.significant.length

/-- The number as a quotient of natural numbers. -/
def ratio (d : DecimalText) : Nat × Nat :=
  let n := Bytes.number d.deciding
  let p := d.scale - d.deciding.length
  if 0 ≤ p then (n * Nat.pow 10 p.toNat, 1) else (n, Nat.pow 10 (-p).toNat)

/-- The quotient to round. A number above `1e310` is replaced by `1e400` and
one below `1e-350` by zero, which round alike. -/
def clamped (d : DecimalText) : Nat × Nat :=
  if d.significant = [] then (0, 1)
  else if d.scale > 311 then (Nat.pow 10 400, 1)
  else if d.scale < -350 then (0, 1)
  else d.ratio

/-- Whether a signed number fits in `bits` bits beside its sign. -/
def fitsSigned (bits : Nat) (i : Int) : Bool :=
  decide (-(Nat.pow 2 bits : Nat) ≤ i) && decide (i < (Nat.pow 2 bits : Nat))

/-- Whether a format holds the number that has mantissas of any length, and
exponents of 32 bits for the digits as an integer, scaled by the powers of two
that stand in the powers of ten. A written exponent of more than 64 bits is
refused. -/
def fitsWide (d : DecimalText) : Bool :=
  if 19 < (withoutZeros d.exponent).length then false
  else
    let written : Int :=
      if d.lowers then -(Bytes.number d.exponent : Int)
      else Bytes.number d.exponent
    let n := Bytes.number d.significant
    let binary := (n.log2 : Int) + 1 - d.fraction.length + written
    fitsSigned 63 written && (n == 0 || fitsSigned 31 binary)

end DecimalText

namespace Binary64

/-- The number nearest to a decimal, if it is not too large. -/
def ofDecimal? (d : DecimalText) : Option Binary64 :=
  (Magnitude.nearest? d.clamped.1 d.clamped.2).map (finite d.negative)

/-- The number nearest to the one a text denotes. -/
def ofText? (s : Bytes) : Option Binary64 :=
  (DecimalText.parse? s).bind ofDecimal?

/-- The same, where the infinities and the value that is no number have texts
of their own. -/
def ofAnyText? (s : Bytes) : Option Binary64 :=
  if s = utf8 "NaN" then some nan
  else if s = utf8 "+Inf" then some (infinite false)
  else if s = utf8 "-Inf" then some (infinite true)
  else ofText? s

/-- Whether a text denotes a number that the format of 32 bits can hold after
rounding. -/
def fitsSingle (s : Bytes) : Bool :=
  match DecimalText.parse? s with
  | some d => (Format.single.round d.clamped.1 d.clamped.2).isSome
  | none => false

end Binary64
end TickRelay
