/-!
# Binary floating point of 64 bits

Prices, volumes and latencies are binary floating point numbers. A finite
number is kept as `mantissa * 2 ^ scale` units of `2 ^ (-1074)`, so that all
arithmetic is exact arithmetic on natural numbers followed by one rounding.

**Input.** Quotients of natural numbers.

**Algorithm.** `Format.round` picks the scale from the size of the quotient and
rounds once, a half to the even neighbour. Sums and quotients of numbers go
through it.

**Results.** `Magnitude` holds the canonical form as proof fields; `add`,
`div`, `ofInt`, `le` and `lt` are the operations of the standard under rounding
to nearest.
-/

namespace TickRelay

/-- The integer nearest to `a / b`; a half goes to the even neighbour. -/
def roundHalfEven (a b : Nat) : Nat :=
  let q := a / b
  let r := a % b
  if 2 * r < b then q else if b < 2 * r then q + 1 else q + q % 2

/-- A binary format: mantissas of `precision` bits, the unit `2 ^ (-grain)`,
and the greatest power of two that may scale a mantissa. -/
structure Format where
  precision : Nat
  grain : Nat
  top : Nat

namespace Format

/-- The format of 64 bits. -/
def double : Format := ⟨53, 1074, 2045⟩

/-- The format of 32 bits. -/
def single : Format := ⟨24, 149, 253⟩

/-- The mantissa and scale nearest to `num / den`, or nothing when that is
above the greatest number of the format. -/
def round (f : Format) (num den : Nat) : Option (Nat × Nat) :=
  let n := num * Nat.pow 2 f.grain
  let s := (n / den).log2 + 1 - f.precision
  let m := roundHalfEven n (den * Nat.pow 2 s)
  let r :=
    if m = Nat.pow 2 f.precision then (Nat.pow 2 (f.precision - 1), s + 1)
    else (m, s)
  if r.2 ≤ f.top then some r else none

end Format

/-- A finite number without its sign, in its one canonical form. -/
structure Magnitude where
  mantissa : Nat
  scale : Nat
  mantissa_lt : mantissa < Nat.pow 2 53
  scale_le : scale ≤ 2045
  normal : scale = 0 ∨ Nat.pow 2 52 ≤ mantissa
  deriving DecidableEq

namespace Magnitude

/-- Zero. -/
def zero : Magnitude := ⟨0, 0, by decide, by decide, .inl rfl⟩

/-- The value in units of `2 ^ (-1074)`. -/
def units (m : Magnitude) : Nat := m.mantissa * Nat.pow 2 m.scale

/-- The number of units in one. -/
def one : Nat := Nat.pow 2 1074

/-- A magnitude from its parts, if they are canonical. -/
def ofParts? (m s : Nat) : Option Magnitude :=
  if h : m < Nat.pow 2 53 ∧ s ≤ 2045 ∧ (s = 0 ∨ Nat.pow 2 52 ≤ m) then
    some ⟨m, s, h.1, h.2.1, h.2.2⟩
  else none

/-- The magnitude nearest to `num / den`, or nothing when it is too large. -/
def nearest? (num den : Nat) : Option Magnitude :=
  (Format.double.round num den).bind fun r => ofParts? r.1 r.2

end Magnitude

/-- A binary floating point number of 64 bits. All not-a-number values are
one. -/
inductive Binary64 where
  | nan
  | infinite (negative : Bool)
  | finite (negative : Bool) (magnitude : Magnitude)
  deriving DecidableEq

namespace Binary64

/-- Positive zero. -/
def zero : Binary64 := finite false .zero

instance : Inhabited Binary64 := ⟨zero⟩

/-- Neither infinite nor not-a-number. -/
def isFinite : Binary64 → Bool
  | finite _ _ => true
  | _ => false

/-- The number nearest to `num / den`, with a sign; infinite when it is too
large. -/
def ofRatio (negative : Bool) (num den : Nat) : Binary64 :=
  match Magnitude.nearest? num den with
  | some m => finite negative m
  | none => infinite negative

/-- The number nearest to an integer. -/
def ofInt (i : Int) : Binary64 := ofRatio (i < 0) i.natAbs 1

/-- The opposite number. -/
def neg : Binary64 → Binary64
  | nan => nan
  | infinite b => infinite (!b)
  | finite b m => finite (!b) m

/-- A number of units with a sign. -/
def signed (negative : Bool) (n : Nat) : Int :=
  if negative then -(n : Int) else n

/-- The sum, rounded to nearest. An exact zero is positive unless both terms
are negative. -/
def add : Binary64 → Binary64 → Binary64
  | nan, _ => nan
  | _, nan => nan
  | infinite a, infinite b => if a == b then infinite a else nan
  | infinite a, finite _ _ => infinite a
  | finite _ _, infinite b => infinite b
  | finite a m, finite b n =>
    let t := signed a m.units + signed b n.units
    if t = 0 then finite (a && b) .zero
    else ofRatio (t < 0) t.natAbs Magnitude.one

/-- The quotient, rounded to nearest. -/
def div : Binary64 → Binary64 → Binary64
  | nan, _ => nan
  | _, nan => nan
  | infinite _, infinite _ => nan
  | infinite a, finite b _ => infinite (a != b)
  | finite a _, infinite b => finite (a != b) .zero
  | finite a m, finite b n =>
    if n.mantissa = 0 then
      if m.mantissa = 0 then nan else infinite (a != b)
    else ofRatio (a != b) m.units n.units

/-- The product, rounded to nearest. -/
def mul : Binary64 → Binary64 → Binary64
  | nan, _ => nan
  | _, nan => nan
  | infinite a, infinite b => infinite (a != b)
  | infinite a, finite b n => if n.mantissa = 0 then nan else infinite (a != b)
  | finite a m, infinite b => if m.mantissa = 0 then nan else infinite (a != b)
  | finite a m, finite b n =>
    ofRatio (a != b) (m.units * n.units) (Magnitude.one * Magnitude.one)

/-- The order of numbers; nothing is below or above not-a-number. -/
def lt : Binary64 → Binary64 → Bool
  | nan, _ => false
  | _, nan => false
  | infinite a, infinite b => a && !b
  | infinite a, finite _ _ => a
  | finite _ _, infinite b => !b
  | finite a m, finite b n => signed a m.units < signed b n.units

/-- The weak order of numbers. The two zeros are equal in it. -/
def le : Binary64 → Binary64 → Bool
  | nan, _ => false
  | _, nan => false
  | infinite a, infinite b => a || !b
  | infinite a, finite _ _ => a
  | finite _ _, infinite b => !b
  | finite a m, finite b n => signed a m.units ≤ signed b n.units

end Binary64
end TickRelay
