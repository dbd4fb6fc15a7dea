import TickRelay.Proofs.NearestNumbers
import TickRelay.Proofs.DecimalDigits
import Mathlib.Algebra.Order.Field.Power
import Mathlib.Algebra.Order.Field.Rat
import Mathlib.Tactic.FieldSimp
import Mathlib.Tactic.Linarith
import Mathlib.Tactic.LinearCombination
import Mathlib.Tactic.Positivity

/-!
# The decimals of numbers

**Algorithm.** `Magnitude.shortest` searches decimal grids for a point in the
basin of a magnitude, and falls back on the exact value; zeros at the end are
moved into the power.

**Results.** `shortest_spec`: the value of the decimal lies in the basin, and
its digits stay in bounds. `decimal_bounds`: nothing in a basin is far out.
-/

namespace TickRelay

namespace Basin

/-- Whether a rational number of quarter units lies in the basin. -/
def Contains (b : Basin) (x : ℚ) : Prop :=
  b.low ≤ x ∧ x ≤ b.high ∧ (b.closed = false → (b.low : ℚ) ≠ x ∧ x ≠ b.high)

theorem contains_natCast_iff {b : Basin} {x : Nat} :
    b.Contains x ↔ b.holds x = true := by
  rw [holds_iff, Contains]
  norm_cast

theorem contains_times_iff {b : Basin} {k : Nat} (hk : 0 < k) {x : ℚ} :
    (b.times k).Contains (x * k) ↔ b.Contains x := by
  have hpos : (0 : ℚ) < k := by exact_mod_cast hk
  unfold Contains times
  simp only [Nat.cast_mul, mul_le_mul_iff_left₀ hpos, ne_eq,
    mul_eq_mul_right_iff, hpos.ne', or_false]

/-- A point that is picked is a positive multiple of the step in the basin. -/
theorem pick?_spec {b : Basin} {step k : Nat} (h : b.pick? step = some k) :
    0 < k ∧ b.holds (k * step) = true := by
  unfold pick? at h
  dsimp only at h
  split at h
  · rename_i hboth
    rw [Bool.and_eq_true, Bool.and_eq_true, decide_eq_true_eq] at hboth
    obtain ⟨⟨hpos, hbelow⟩, habove⟩ := hboth
    obtain hk | hk : k = b.value / step ∨ k = b.value / step + 1 := by
      have hk := Option.some.inj h
      (repeat' split at hk) <;> omega
    · exact hk ▸ ⟨hpos, hbelow⟩
    · exact hk ▸ ⟨Nat.succ_pos _, habove⟩
  · split at h
    · rename_i hbelow
      rw [Bool.and_eq_true, decide_eq_true_eq] at hbelow
      cases h
      exact hbelow
    · split at h
      · rename_i habove
        cases h
        exact ⟨Nat.succ_pos _, habove⟩
      · cases h

end Basin

namespace Decimal

/-- The number that a decimal denotes. -/
def value (d : Decimal) : ℚ := d.coefficient * 10 ^ d.power

theorem strip_spec (k : Nat) (d : Decimal) :
    (strip k d).value = d.value ∧ (strip k d).coefficient ≤ d.coefficient ∧
      d.power ≤ (strip k d).power ∧
      (0 < d.coefficient → 0 < (strip k d).coefficient) := by
  induction k generalizing d with
  | zero => exact ⟨rfl, Nat.le_refl _, Int.le_refl _, id⟩
  | succ k ih =>
    unfold strip
    split
    · rename_i hten
      obtain ⟨hvalue, hle, hpower, hpos⟩ :=
        ih ⟨d.coefficient / 10, d.power + 1⟩
      dsimp only at hvalue hle hpower hpos
      refine ⟨hvalue.trans ?_, by omega, by omega, fun _ => hpos (by omega)⟩
      have hdiv : (d.coefficient : ℚ) = (d.coefficient / 10 : Nat) * 10 := by
        exact_mod_cast (by omega : d.coefficient = d.coefficient / 10 * 10)
      rw [value, value, hdiv, zpow_add_one₀ (by norm_num)]
      ring
    · exact ⟨rfl, Nat.le_refl _, Int.le_refl _, id⟩

/-- Factors of ten are moved, if there are no more of them than steps. -/
theorem strip_mul {c j : Nat} (hc : 0 < c) (k : Nat) (p : Int) :
    strip (k + j) ⟨c * 10 ^ j, p⟩ = strip k ⟨c, p + j⟩ := by
  induction j generalizing p with
  | zero => simp
  | succ j ih =>
    have hpos : 0 < c * 10 ^ j := Nat.mul_pos hc (Nat.pow_pos (by decide))
    have hsucc : c * 10 ^ (j + 1) = c * 10 ^ j * 10 := by
      rw [Nat.pow_succ, Nat.mul_assoc]
    rw [← Nat.add_assoc, strip, if_pos (by dsimp only; omega)]
    dsimp only
    rw [hsucc, Nat.mul_div_cancel _ (by decide), ih]
    congr 2
    push_cast
    ring

end Decimal

namespace Basin

theorem contains_hit {b : Basin} {p : Int} {c : Nat}
    (h : (if 0 ≤ p then b.pick? (4 * Magnitude.one * Nat.pow 10 p.toNat)
      else (b.times (Nat.pow 10 (-p).toNat)).pick? (4 * Magnitude.one)) =
        some c) :
    0 < c ∧ b.Contains (Decimal.value ⟨c, p⟩ * (4 * Magnitude.one : Nat)) := by
  generalize 4 * Magnitude.one = quarter at h ⊢
  split at h
  · rename_i hp
    obtain ⟨n, rfl⟩ := Int.eq_ofNat_of_zero_le hp
    obtain ⟨hpos, hholds⟩ := pick?_spec h
    have hvalue :
        Decimal.value ⟨c, n⟩ * quarter = (c * (quarter * 10 ^ n) : Nat) := by
      rw [Decimal.value, zpow_natCast]
      push_cast
      ring
    rw [Int.toNat_natCast] at hholds
    exact ⟨hpos, hvalue ▸ contains_natCast_iff.mpr hholds⟩
  · rename_i hp
    obtain ⟨n, rfl⟩ : ∃ n : Nat, p = -n := ⟨(-p).toNat, by omega⟩
    obtain ⟨hpos, hholds⟩ := pick?_spec h
    have hten : (0 : ℚ) < 10 ^ n := by positivity
    have hvalue :
        Decimal.value ⟨c, -n⟩ * quarter * (10 ^ n : Nat) =
          (c * quarter : Nat) := by
      rw [Decimal.value, zpow_neg, zpow_natCast]
      push_cast
      field_simp
    rw [neg_neg, Int.toNat_natCast] at hholds
    refine ⟨hpos,
      (contains_times_iff (Nat.pow_pos (by decide) : 0 < 10 ^ n)).mp ?_⟩
    rw [hvalue]
    exact contains_natCast_iff.mpr hholds

/-- What the search finds lies in the basin and on one of the grids. -/
theorem search_spec {b : Basin} {count : Nat} {p : Int} {d : Decimal}
    (h : b.search count p = some d) :
    0 < d.coefficient ∧ b.Contains (d.value * (4 * Magnitude.one : Nat)) ∧
    p - count < d.power := by
  induction count generalizing p with
  | zero => cases h
  | succ count ih =>
    unfold search at h
    dsimp only at h
    split at h
    · rename_i c hhit
      cases h
      obtain ⟨hpos, hin⟩ := contains_hit hhit
      exact ⟨hpos, hin, by push_cast; omega⟩
    · obtain ⟨hpos, hin, hpower⟩ := ih h
      exact ⟨hpos, hin, by push_cast; omega⟩

end Basin

/-- Where the decimal point of a number stands that lies between two powers of
ten. -/
theorem exponent_bounds {n digits : Nat} {p a b : Int}
    (hdigits : 10 ^ (digits - 1) ≤ n) (hn : n < 10 ^ digits)
    (hlow : (10 : ℚ) ^ a < n * 10 ^ p) (hhigh : n * (10 : ℚ) ^ p < 10 ^ b) :
    a < p + digits ∧ p + digits ≤ b := by
  have hten : (1 : ℚ) < 10 := by norm_num
  have hp : (0 : ℚ) < 10 ^ p := by positivity
  have hone : 1 ≤ digits := by
    by_contra hzero
    obtain rfl : digits = 0 := by omega
    have hpos : 0 < 10 ^ (0 - 1) := Nat.pow_pos (by decide)
    omega
  constructor
  · have hlt : (n : ℚ) * 10 ^ p < 10 ^ (p + digits) := by
      rw [zpow_add₀ (by norm_num), mul_comm, zpow_natCast]
      exact mul_lt_mul_of_pos_left (by exact_mod_cast hn) hp
    exact (zpow_lt_zpow_iff_right₀ hten).mp (hlow.trans hlt)
  · have hle : (10 : ℚ) ^ (p + (digits - 1 : Nat)) ≤ n * 10 ^ p := by
      rw [zpow_add₀ (by norm_num), mul_comm, zpow_natCast]
      exact mul_le_mul_of_nonneg_right (by exact_mod_cast hdigits) hp.le
    have hlt := (zpow_lt_zpow_iff_right₀ hten).mp (hle.trans_lt hhigh)
    omega

-- Powers with great exponents are kept as they are: only the kernel computes
-- with them.
theorem cast_tenPow (k : Nat) :
    ((Nat.pow 10 k : Nat) : ℚ) = 10 ^ (k : Int) := by
  rw [zpow_natCast]
  exact Nat.cast_pow 10 k

namespace Magnitude

theorem two_le_low {m : Magnitude} (hm : m.mantissa ≠ 0) :
    2 ≤ (Basin.of m).low := by
  have hstep : 0 < Nat.pow 2 m.scale := Nat.pow_pos (by decide)
  have hunits : Nat.pow 2 m.scale ≤ m.units :=
    Nat.le_mul_of_pos_left _ (Nat.pos_of_ne_zero hm)
  unfold Basin.of
  dsimp only
  generalize Nat.pow 2 m.scale = step at hstep hunits ⊢
  split <;> omega

theorem high_le {m : Magnitude} {a b : Nat} (ha : m.mantissa < a)
    (hb : Nat.pow 2 m.scale ≤ b) : (Basin.of m).high ≤ 4 * (a * b) := by
  have hnext : (m.mantissa + 1) * Nat.pow 2 m.scale ≤ a * b :=
    Nat.mul_le_mul ha hb
  rw [Nat.succ_mul] at hnext
  show 4 * (m.mantissa * Nat.pow 2 m.scale) + 2 * Nat.pow 2 m.scale ≤ _
  generalize m.mantissa * Nat.pow 2 m.scale = units at hnext ⊢
  generalize Nat.pow 2 m.scale = step at hnext ⊢
  omega

theorem bounds_of_quarters {x : ℚ} {quarter high least greatest : Nat}
    (hlow : 2 ≤ x * quarter) (hhigh : x * quarter ≤ high) (hpos : 0 < quarter)
    (hleast : quarter < 2 * least) (hgreatest : high < greatest * quarter) :
    (least : ℚ)⁻¹ < x ∧ x < greatest := by
  have hquarter : (0 : ℚ) < quarter := by exact_mod_cast hpos
  have hlt : (quarter : ℚ) < 2 * least := by exact_mod_cast hleast
  constructor
  · rw [inv_lt_iff_one_lt_mul₀ (by linarith)]
    nlinarith
  · refine lt_of_mul_lt_mul_right (hhigh.trans_lt ?_) hquarter.le
    exact_mod_cast hgreatest

/-- The numbers in a basin are far from the bounds of decimal exponents. -/
theorem bounds_of_contains {m : Magnitude} (hm : m.mantissa ≠ 0) {x : ℚ}
    (h : (Basin.of m).Contains (x * (4 * one : Nat))) {a b c : Nat}
    (ha : m.scale ≤ a)
    (hb : 4 * (Nat.pow 2 53 * Nat.pow 2 a) < Nat.pow 10 b * (4 * one))
    (hc : 4 * one < 2 * Nat.pow 10 c) :
    (10 : ℚ) ^ (-(c : Int)) < x ∧ x < 10 ^ (b : Int) := by
  have hlow : (2 : ℚ) ≤ (Basin.of m).low := by exact_mod_cast two_le_low hm
  have hhigh :=
    high_le m.mantissa_lt (Nat.pow_le_pow_right (by decide : 0 < 2) ha)
  have hpos : 0 < 4 * one := by decide +kernel
  have hbounds :=
    bounds_of_quarters (hlow.trans h.1) h.2.1 hpos hc
      (Nat.lt_of_le_of_lt hhigh hb)
  rwa [cast_tenPow, cast_tenPow, ← zpow_neg] at hbounds

theorem value_exactDecimal (m : Magnitude) :
    m.exactDecimal.value * (4 * one : Nat) = (4 * m.units : Nat) := by
  obtain ⟨tens, hten, hproduct, hpos⟩ :
      ∃ tens : Nat, (tens : ℚ) = 10 ^ ((1074 : Nat) : Int) ∧
        Nat.pow 5 1074 * one = tens ∧ 0 < tens :=
    ⟨_, cast_tenPow 1074, by decide +kernel, by decide +kernel⟩
  rw [Nat.cast_ofNat] at hten
  unfold exactDecimal Decimal.value
  dsimp only
  rw [zpow_neg, ← hten]
  generalize Nat.pow 5 1074 = fives at hproduct ⊢
  generalize one = unit at hproduct ⊢
  have htens : (fives : ℚ) * unit = tens := by exact_mod_cast hproduct
  have hne : (tens : ℚ) ≠ 0 := by exact_mod_cast hpos.ne'
  push_cast
  field_simp
  linear_combination (m.units : ℚ) * htens

theorem contains_exactDecimal {m : Magnitude} (hm : m.mantissa ≠ 0) :
    (Basin.of m).Contains (m.exactDecimal.value * (4 * one : Nat)) := by
  have hstep : 0 < Nat.pow 2 m.scale := Nat.pow_pos (by decide)
  have hunits : Nat.pow 2 m.scale ≤ m.units :=
    Nat.le_mul_of_pos_left _ (Nat.pos_of_ne_zero hm)
  rw [value_exactDecimal, Basin.contains_natCast_iff, Basin.holds_iff]
  unfold Basin.of
  dsimp only
  generalize Nat.pow 2 m.scale = step at hstep hunits ⊢
  split <;> omega

/-- Twos and fives make tens, as far as there are both. -/
theorem mul_tens (M s k : Nat) :
    M * Nat.pow 2 s * Nat.pow 5 k =
      M * (2 ^ (s - k) * 5 ^ (k - s)) * 10 ^ min s k := by
  have htwos : Nat.pow 2 s = 2 ^ (s - k) * 2 ^ min s k :=
    (congrArg (2 ^ ·) (by omega : s = s - k + min s k)).trans
      (Nat.pow_add 2 _ _)
  have hfives : Nat.pow 5 k = 5 ^ (k - s) * 5 ^ min s k :=
    (congrArg (5 ^ ·) (by omega : k = k - s + min s k)).trans
      (Nat.pow_add 5 _ _)
  have htens : 10 ^ min s k = 2 ^ min s k * 5 ^ min s k := Nat.mul_pow 2 5 _
  rw [htwos, hfives, htens]
  ring

/-- The coefficient of the exact decimal is not too long, once its zeros are
moved. -/
theorem coefficient_exactDecimal {m : Magnitude} (hm : m.mantissa ≠ 0) :
    (m.exactDecimal.strip 1100).coefficient < 10 ^ 800 := by
  unfold exactDecimal
  generalize hk : 1074 = k
  rw [units, mul_tens]
  have hfives : Nat.pow 2 53 * Nat.pow 5 k < 10 ^ 800 := by
    subst hk
    decide +kernel
  have htwos : Nat.pow 2 53 * Nat.pow 2 (2045 - k) < 10 ^ 800 := by
    subst hk
    decide +kernel
  have hpos : 0 < m.mantissa * (2 ^ (m.scale - k) * 5 ^ (k - m.scale)) :=
    Nat.mul_pos (Nat.pos_of_ne_zero hm) (by positivity)
  have hcount : 1100 = 1100 - min m.scale k + min m.scale k := by omega
  rw [hcount, Decimal.strip_mul hpos]
  refine Nat.lt_of_le_of_lt (Decimal.strip_spec _ _).2.1 ?_
  dsimp only
  rcases Nat.le_total m.scale k with hle | hle
  · rw [Nat.sub_eq_zero_of_le hle, Nat.pow_zero, Nat.one_mul]
    refine Nat.lt_of_le_of_lt (Nat.mul_le_mul m.mantissa_lt.le ?_) hfives
    exact Nat.pow_le_pow_right (by decide) (Nat.sub_le _ _)
  · rw [Nat.sub_eq_zero_of_le hle, Nat.pow_zero, Nat.mul_one]
    refine Nat.lt_of_le_of_lt (Nat.mul_le_mul m.mantissa_lt.le ?_) htwos
    exact Nat.pow_le_pow_right (by decide) (Nat.sub_le_sub_right m.scale_le k)

theorem decimal_bounds {m : Magnitude} (hm : m.mantissa ≠ 0) {x : ℚ}
    (h : (Basin.of m).Contains (x * (4 * one : Nat))) :
    (10 : ℚ) ^ (-((324 : Nat) : Int)) < x ∧ x < 10 ^ ((309 : Nat) : Int) :=
  bounds_of_contains hm h m.scale_le (by decide +kernel) (by decide +kernel)

/-- The decimal lies in the basin, and its coefficient is not zero and not too
long. -/
theorem shortest_spec {m : Magnitude} (hm : m.mantissa ≠ 0) :
    0 < m.shortest.coefficient ∧ (∃ k ≤ 800, m.shortest.coefficient < 10 ^ k) ∧
      (Basin.of m).Contains (m.shortest.value * (4 * one : Nat)) := by
  rw [shortest, if_neg hm]
  cases hsearch : (Basin.of m).search 25 m.topPower with
  | some d =>
    obtain ⟨hpos, hin, hpower⟩ := Basin.search_spec hsearch
    obtain ⟨hvalue, hle, -, hkeep⟩ := d.strip_spec 1100
    obtain ⟨hlow, hhigh⟩ := decimal_bounds hm hin
    have htop : -323 ≤ m.topPower := by
      unfold topPower
      omega
    -- A coefficient of 800 digits would need a grid far below the last one.
    have hpoint := (exponent_bounds (Bytes.pow_length_decimal_le hpos.ne')
      (Bytes.lt_pow_length_decimal d.coefficient) hlow hhigh).2
    have hlt :=
      Nat.lt_of_le_of_lt hle (Bytes.lt_pow_length_decimal d.coefficient)
    rw [Option.getD_some, hvalue]
    exact ⟨hkeep hpos, ⟨_, by omega, hlt⟩, hin⟩
  | none =>
    obtain ⟨hvalue, -, -, hkeep⟩ := m.exactDecimal.strip_spec 1100
    have hpos : 0 < m.exactDecimal.coefficient :=
      Nat.mul_pos
        (Nat.mul_pos (Nat.pos_of_ne_zero hm) (Nat.pow_pos (by decide)))
        (by decide +kernel)
    rw [Option.getD_none, hvalue]
    exact ⟨hkeep hpos, ⟨800, Nat.le_refl _, coefficient_exactDecimal hm⟩,
      contains_exactDecimal hm⟩

end Magnitude

end TickRelay
