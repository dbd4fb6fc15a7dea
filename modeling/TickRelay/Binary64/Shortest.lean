import TickRelay.Binary64.Basic

/-!
# The fewest digits that read back

**Input.** A nonzero magnitude.

**Algorithm.** The reals that round to the magnitude form an interval around
it, with its ends exactly when the mantissa is even. Decimal grids of falling
step are tried; on each, the two grid points next to the value are tested in
exact arithmetic, and the first grid with a point in the interval wins. Of two
points the nearer is taken, and of two equally near the even one.

**Results.** `shortest` gives a coefficient and a power of ten; if none of the
grids has a point in the interval it gives the exact value, so that it always
reads back.
-/

namespace TickRelay

/-- The number `coefficient * 10 ^ power`. -/
structure Decimal where
  coefficient : Nat
  power : Int
  deriving DecidableEq, Repr

namespace Decimal

/-- Moves factors of ten from the coefficient into the power. -/
def strip : Nat → Decimal → Decimal
  | 0, d => d
  | k + 1, d =>
    if d.coefficient ≠ 0 ∧ d.coefficient % 10 = 0 then
      strip k ⟨d.coefficient / 10, d.power + 1⟩
    else d

end Decimal

/-- The reals that round to a magnitude, in quarters of the unit. -/
structure Basin where
  value : Nat
  low : Nat
  high : Nat
  closed : Bool

namespace Basin

/-- The basin of a magnitude. Right above a power of two the numbers below lie
closer. -/
def of (m : Magnitude) : Basin :=
  let v := 4 * m.units
  let below :=
    if m.mantissa = Nat.pow 2 52 ∧ m.scale ≠ 0 then Nat.pow 2 m.scale
    else 2 * Nat.pow 2 m.scale
  ⟨v, v - below, v + 2 * Nat.pow 2 m.scale, m.mantissa % 2 = 0⟩

/-- The basin with all its numbers multiplied. -/
def times (b : Basin) (k : Nat) : Basin :=
  ⟨b.value * k, b.low * k, b.high * k, b.closed⟩

/-- Whether a point lies in the basin. -/
def holds (b : Basin) (x : Nat) : Bool :=
  if b.closed then b.low ≤ x && x ≤ b.high else b.low < x && x < b.high

/-- The multiple of `step` in the basin that is next to the value, if there is
one. -/
def pick? (b : Basin) (step : Nat) : Option Nat :=
  let f := b.value / step
  let below := 0 < f && b.holds (f * step)
  let above := b.holds ((f + 1) * step)
  if below && above then
    let down := b.value - f * step
    let up := (f + 1) * step - b.value
    some (if down < up then f else if up < down then f + 1 else f + f % 2)
  else if below then some f
  else if above then some (f + 1)
  else none

/-- The first of `count` grids `10 ^ p, 10 ^ (p - 1), …` with a point in the
basin. -/
def search (b : Basin) : Nat → Int → Option Decimal
  | 0, _ => none
  | count + 1, p =>
    let quarter := 4 * Magnitude.one
    let hit :=
      if 0 ≤ p then b.pick? (quarter * Nat.pow 10 p.toNat)
      else (b.times (Nat.pow 10 (-p).toNat)).pick? quarter
    match hit with
    | some c => some ⟨c, p⟩
    | none => search b count (p - 1)

end Basin

namespace Magnitude

/-- A power of ten at least as large as a tenth of the value. -/
def topPower (m : Magnitude) : Int :=
  (((m.units.log2 : Int) + 1 - 1074) * 30103) / 100000 + 1

/-- The value written out exactly. -/
def exactDecimal (m : Magnitude) : Decimal := ⟨m.units * Nat.pow 5 1074, -1074⟩

/-- The decimal of fewest digits that reads back as the magnitude. -/
def shortest (m : Magnitude) : Decimal :=
  if m.mantissa = 0 then ⟨0, 0⟩
  else (((Basin.of m).search 25 m.topPower).getD m.exactDecimal).strip 1100

end Magnitude
end TickRelay
