import TickRelay.Bytes
import TickRelay.Binary64.Shortest

/-!
# Numbers as text

Two written forms of a number. `shortestText` has the fewest digits that read
back, positional for decimal exponents from -6 to 20 and scientific outside.
`fixedText` has a fixed number of decimal places of the exact value, a half
going to the even neighbour.
-/

namespace TickRelay

/-- Where positional notation ends, and how many digits an exponent has at
least. -/
structure NumberLayout where
  leastPoint : Int
  greatestPoint : Int
  exponentDigits : Nat

namespace Decimal

/-- Digits with a decimal point before digit number `point`. -/
def positional (ds : Bytes) (point : Int) : Bytes :=
  if point ≤ 0 then utf8 "0." ++ List.replicate (-point).toNat 48 ++ ds
  else
    let k := point.toNat
    if k < ds.length then ds.take k ++ utf8 "." ++ ds.drop k
    else ds ++ List.replicate (k - ds.length) 48

/-- One digit, the others after a point, and the exponent with its sign. -/
def scientific (ds : Bytes) (point : Int) (width : Nat) : Bytes :=
  let fraction := match ds.drop 1 with
    | [] => []
    | rest => utf8 "." ++ rest
  let e := point - 1
  let sign := if e < 0 then utf8 "-" else utf8 "+"
  ds.take 1 ++ fraction ++ utf8 "e" ++ sign ++
    Bytes.paddedDecimal width e.natAbs

/-- A nonzero decimal in a layout. -/
def render (l : NumberLayout) (d : Decimal) : Bytes :=
  let ds := Bytes.decimal d.coefficient
  let point := d.power + ds.length
  if l.leastPoint ≤ point ∧ point ≤ l.greatestPoint then positional ds point
  else scientific ds point l.exponentDigits

end Decimal

namespace Binary64

/-- Numbers from `1e-6` up to below `1e21` are positional; exponents have two
digits or more. -/
def layout : NumberLayout := ⟨-5, 21, 2⟩

/-- A minus sign for a negative number. -/
def signText (negative : Bool) : Bytes := if negative then utf8 "-" else []

/-- The text of a number that is not finite. -/
def specialText : Binary64 → Bytes
  | infinite true => utf8 "-Inf"
  | infinite false => utf8 "+Inf"
  | _ => utf8 "NaN"

/-- The fewest digits that read back. -/
def shortestText : Binary64 → Bytes
  | finite negative m =>
    signText negative ++
      (if m.mantissa = 0 then utf8 "0" else m.shortest.render layout)
  | x => specialText x

/-- The exact value rounded to `places` decimal places, a half to even. -/
def fixedText (places : Nat) : Binary64 → Bytes
  | finite negative m =>
    let n := roundHalfEven (m.units * Nat.pow 10 places) Magnitude.one
    signText negative ++ Bytes.decimal (n / Nat.pow 10 places) ++ utf8 "." ++
      Bytes.paddedDecimal places (n % Nat.pow 10 places)
  | x => specialText x

end Binary64
end TickRelay
