import TickRelay.Feed.Backoff
import Mathlib.Algebra.Order.Ring.Int

/-!
# The band of waits before a reconnect

The wait before an attempt is meant to lie between half of a ceiling and the
ceiling, where the ceiling is the base, doubled with every attempt, up to a
maximum. It is reckoned in 64 bits: a product that is not positive or not below
the maximum is taken for one that is too large, and from the thirtieth doubling
on none is tried.

**Input.** A base, a maximum and the number of an attempt, any of them
negative.

**Algorithm.** `doubled`, `cap` and `documented` are the ceiling in exact
numbers. `designed` leaves the doublings out that are not tried. `IsMisled`
says that a product has wrapped and yet looks like a ceiling.

**Results.** `draws_ceiling`: whatever the ceiling in 64 bits is, the waits
that can be drawn are the numbers of its upper half. `toInt_ceiling`: it is the
designed one unless a wrapped product misleads.
-/

namespace TickRelay
namespace Feed
namespace Backoff

variable {b : Backoff} {n : Int}

/-- The base that counts, in exact numbers. -/
def unit (b : Backoff) : Int :=
  if 0 < b.base.toInt then b.base.toInt else 1000000000

/-- The maximum that counts, in exact numbers. -/
def cap (b : Backoff) : Int := Max.max b.max.toInt b.unit

/-- The base after the doublings of an attempt. -/
def doubled (b : Backoff) (n : Int) : Int := b.unit * 2 ^ n.toNat

/-- The ceiling without regard to the size of numbers. -/
def documented (b : Backoff) (n : Int) : Int := min (b.doubled n) b.cap

/-- The ceiling when thirty doublings are taken to reach the maximum. -/
def designed (b : Backoff) (n : Int) : Int :=
  if n < 30 then b.documented n else b.cap

/-- The product does not fit into 64 bits, and what they hold of it looks like
a ceiling below the maximum. -/
def IsMisled (b : Backoff) (n : Int) : Prop :=
  n < 30 ∧ 2 ^ 63 ≤ b.doubled n ∧
    0 < (b.doubled n).bmod (2 ^ 64) ∧ (b.doubled n).bmod (2 ^ 64) < b.cap

/-- A number can be the wait before an attempt. -/
def Possible (b : Backoff) (n : Int) (d : Int) : Prop :=
  ∃ drawn : Int64, 0 ≤ drawn ∧ drawn < b.choices n ∧
    (b.delay n drawn).toInt = d

/-- The possible waits are the numbers from half of a ceiling up to the
ceiling. -/
def Draws (b : Backoff) (n : Int) (ceiling : Int) : Prop :=
  ∀ d : Int, b.Possible n d ↔ ceiling / 2 ≤ d ∧ d ≤ ceiling

theorem unit_pos (b : Backoff) : 0 < b.unit := by
  unfold unit
  split
  · assumption
  · decide

theorem toInt_effectiveBase (b : Backoff) :
    b.effectiveBase.toInt = b.unit := by
  unfold effectiveBase unit
  have hsign : b.base ≤ 0 ↔ ¬ 0 < b.base.toInt :=
    Int64.le_iff_toInt_le.trans Int.not_lt.symm
  by_cases hpos : 0 < b.base.toInt
  · rw [if_pos hpos, if_neg fun hle => hsign.mp hle hpos]
  · rw [if_neg hpos, if_pos (hsign.mpr hpos)]
    rfl

theorem toInt_effectiveMax (b : Backoff) : b.effectiveMax.toInt = b.cap := by
  unfold effectiveMax cap
  have hlt : b.max < b.effectiveBase ↔ b.max.toInt < b.unit := by
    rw [Int64.lt_iff_toInt_lt, toInt_effectiveBase]
  split
  case isTrue h =>
    rw [toInt_effectiveBase, max_eq_right (Int.le_of_lt (hlt.mp h))]
  case isFalse h =>
    rw [max_eq_left (Int.not_lt.mp fun hless => h (hlt.mpr hless))]

theorem cap_pos (b : Backoff) : 0 < b.cap :=
  Int.lt_of_lt_of_le b.unit_pos (Int.le_max_right _ _)

theorem cap_lt (b : Backoff) : b.cap < 2 ^ 63 :=
  b.toInt_effectiveMax ▸ b.effectiveMax.toInt_lt

/-- The product in 64 bits, where one is tried. -/
def product (b : Backoff) (n : Int) : Int64 :=
  b.effectiveBase * Int64.ofInt (Nat.pow 2 n.toNat : Nat)

/-- The product is taken for the ceiling if it lies between zero and the
maximum. -/
theorem ceiling_eq (b : Backoff) (n : Int) :
    (b.ceiling n).toInt =
      if n < 30 ∧ 0 < (b.product n).toInt ∧ (b.product n).toInt < b.cap then
        (b.product n).toInt
      else b.cap := by
  have hpos : 0 < b.product n ↔ 0 < (b.product n).toInt :=
    Int64.lt_iff_toInt_lt
  have hlt : b.product n < b.effectiveMax ↔ (b.product n).toInt < b.cap := by
    rw [Int64.lt_iff_toInt_lt, toInt_effectiveMax]
  have hfew : n.toNat < 30 ↔ n < 30 := by omega
  have hceiling : b.ceiling n =
      if n.toNat < 30 then
        if 0 < b.product n ∧ b.product n < b.effectiveMax then b.product n
        else b.effectiveMax
      else b.effectiveMax := rfl
  rw [hceiling]
  simp only [hpos, hlt, hfew, ← ite_and, apply_ite Int64.toInt,
    toInt_effectiveMax]

theorem toInt_product (hn : n < 30) :
    (b.product n).toInt = (b.doubled n).bmod (2 ^ 64) := by
  have hpow : Nat.pow 2 n.toNat < 2 ^ 63 :=
    Nat.pow_lt_pow_right (by decide) (by omega)
  have hpower :
      (Int64.ofInt (Nat.pow 2 n.toNat : Nat)).toInt = (2 ^ n.toNat : Int) := by
    rw [Int64.toInt_ofInt_of_le (by omega) (by omega)]
    exact Int.natCast_pow 2 n.toNat
  rw [product, Int64.toInt_mul, toInt_effectiveBase, hpower, doubled]

theorem doubled_pos (b : Backoff) (n : Int) : 0 < b.doubled n :=
  Int.mul_pos b.unit_pos (Int.pow_pos (by decide))

/-- The ceiling is positive, also where a product has wrapped. -/
theorem ceiling_pos (b : Backoff) (n : Int) : 0 < (b.ceiling n).toInt := by
  rw [ceiling_eq]
  split
  case isTrue h => exact h.2.1
  case isFalse => exact b.cap_pos

/-- The ceiling is the designed one unless a wrapped product misleads. -/
theorem toInt_ceiling (h : ¬ b.IsMisled n) :
    (b.ceiling n).toInt = b.designed n := by
  have hcap := b.cap_lt
  have hdoubled := b.doubled_pos n
  rw [ceiling_eq, designed, documented]
  by_cases hn : n < 30
  · rw [if_pos hn, toInt_product hn]
    by_cases hfits : b.doubled n < 2 ^ 63
    · -- The product is exact, so that it looks like a ceiling when it is one.
      have hexact : (b.doubled n).bmod (2 ^ 64) = b.doubled n :=
        Int.bmod_eq_of_le (by omega) (by omega)
      rw [hexact]
      split <;> omega
    · -- The exact product is above every maximum, and the wrapped one does not
      -- look like a ceiling.
      have hlooks : ¬ (n < 30 ∧ 0 < (b.doubled n).bmod (2 ^ 64) ∧
          (b.doubled n).bmod (2 ^ 64) < b.cap) :=
        fun hlike => h ⟨hn, Int.not_lt.mp hfits, hlike.2⟩
      rw [if_neg hlooks]
      omega
  · rw [if_neg hn, if_neg fun hlike => hn hlike.1]

section Draw

variable (b n)

theorem toInt_half : (b.ceiling n / 2).toInt = (b.ceiling n).toInt / 2 := by
  have hpos := b.ceiling_pos n
  rw [Int64.toInt_div_of_ne_right _ _ (by decide)]
  exact Int.tdiv_eq_ediv_of_nonneg (Int.le_of_lt hpos)

/-- The number of choices is that of the numbers in the upper half of the
ceiling. -/
theorem toInt_choices :
    (b.choices n).toInt =
      (b.ceiling n).toInt - (b.ceiling n).toInt / 2 + 1 := by
  have hpos := b.ceiling_pos n
  have hlt := (b.ceiling n).toInt_lt
  have hone : (1 : Int64).toInt = 1 := rfl
  have hupper :
      (b.ceiling n - b.ceiling n / 2).toInt =
        (b.ceiling n).toInt - (b.ceiling n).toInt / 2 := by
    rw [Int64.toInt_sub, toInt_half, Int.bmod_eq_of_le (by omega) (by omega)]
  rw [choices, Int64.toInt_add, hupper, hone,
    Int.bmod_eq_of_le (by omega) (by omega)]

theorem toInt_delay {drawn : Int64} (hlow : 0 ≤ drawn)
    (hhigh : drawn < b.choices n) :
    (b.delay n drawn).toInt = (b.ceiling n).toInt / 2 + drawn.toInt := by
  have hlow : 0 ≤ drawn.toInt := Int64.le_iff_toInt_le.mp hlow
  have hhigh : drawn.toInt < (b.choices n).toInt :=
    Int64.lt_iff_toInt_lt.mp hhigh
  have hpos := b.ceiling_pos n
  have hlt := (b.ceiling n).toInt_lt
  rw [toInt_choices] at hhigh
  rw [delay, Int64.toInt_add, toInt_half,
    Int.bmod_eq_of_le (by omega) (by omega)]

theorem choices_pos : 0 < b.choices n := by
  have hpos := b.ceiling_pos n
  rw [Int64.lt_iff_toInt_lt, toInt_choices]
  show 0 < _
  omega

/-- The waits that can be drawn are the numbers of the upper half of the
ceiling. -/
theorem draws_ceiling : b.Draws n (b.ceiling n).toInt := by
  intro d
  have hpos := b.ceiling_pos n
  have hlt := (b.ceiling n).toInt_lt
  constructor
  · rintro ⟨drawn, hlow, hhigh, rfl⟩
    rw [toInt_delay b n hlow hhigh]
    have hlow : 0 ≤ drawn.toInt := Int64.le_iff_toInt_le.mp hlow
    have hhigh : drawn.toInt < (b.choices n).toInt :=
      Int64.lt_iff_toInt_lt.mp hhigh
    rw [toInt_choices] at hhigh
    omega
  · rintro ⟨hlow, hhigh⟩
    -- The number to draw is by how much the wait exceeds half of the ceiling.
    have hdrawn :
        (Int64.ofInt (d - (b.ceiling n).toInt / 2)).toInt =
          d - (b.ceiling n).toInt / 2 :=
      Int64.toInt_ofInt_of_le (by omega) (by omega)
    have hfirst : 0 ≤ Int64.ofInt (d - (b.ceiling n).toInt / 2) := by
      rw [Int64.le_iff_toInt_le, hdrawn]
      show 0 ≤ _
      omega
    have hlast : Int64.ofInt (d - (b.ceiling n).toInt / 2) < b.choices n := by
      rw [Int64.lt_iff_toInt_lt, hdrawn, toInt_choices]
      omega
    refine ⟨_, hfirst, hlast, ?_⟩
    rw [toInt_delay b n hfirst hlast, hdrawn]
    omega

end Draw

/-- There always is something to draw from, and unless a wrapped product
misleads, the waits that can be drawn are the numbers of the upper half of the
designed ceiling. -/
theorem draws_designed (b : Backoff) (n : Int) :
    0 < b.choices n ∧ (¬ b.IsMisled n → b.Draws n (b.designed n)) :=
  ⟨b.choices_pos n, fun h => toInt_ceiling h ▸ b.draws_ceiling n⟩

/-- A base of more than 146 years, which does not fit after one doubling and is
found not to. -/
theorem draws_designed_of_caught :
    ¬ (⟨4611686018427387905, 0⟩ : Backoff).IsMisled 1 ∧
      (⟨4611686018427387905, 0⟩ : Backoff).Draws 1 4611686018427387905 := by
  have hcaught : ¬ (⟨4611686018427387905, 0⟩ : Backoff).IsMisled 1 := by
    rintro ⟨-, -, hpos, -⟩
    revert hpos
    decide
  exact ⟨hcaught, (draws_designed _ 1).2 hcaught⟩

/-- A base of a millisecond and a maximum of thirty days, of which thirty
doublings reach twelve. -/
def patient : Backoff := ⟨1000000, 2592000000000000⟩

/-- A base of half a minute that has all but wrapped to nothing after
twenty-nine doublings. -/
def forgetful : Backoff := ⟨34359738369, 60000000000⟩

theorem not_always_documented :
    ¬ patient.Draws 30 (patient.documented 30) ∧
    ¬ forgetful.Draws 29 (forgetful.documented 29) := by
  have hpatient : (patient.ceiling 30).toInt = 2592000000000000 := rfl
  have hforgetful : (forgetful.ceiling 29).toInt = 536870912 := rfl
  have htwelve : patient.documented 30 = 1073741824000000 := rfl
  have hminute : forgetful.documented 29 = 60000000000 := rfl
  constructor
  · intro hdraws
    -- The documented ceiling is a possible wait, and is shorter than the
    -- shortest one.
    rw [htwelve] at hdraws
    have hpossible := (hdraws 1073741824000000).mpr ⟨by omega, Int.le_refl _⟩
    have hband := (patient.draws_ceiling 30 _).mp hpossible
    omega
  · intro hdraws
    rw [hminute] at hdraws
    have hpossible := (hdraws 60000000000).mpr ⟨by omega, Int.le_refl _⟩
    have hband := (forgetful.draws_ceiling 29 _).mp hpossible
    omega

end Backoff
end Feed
end TickRelay
