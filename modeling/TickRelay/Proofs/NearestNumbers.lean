import TickRelay.Binary64.Shortest
import TickRelay.Proofs.FiniteNumbers

/-!
# What rounds to a number

**Algorithm.** `Magnitude.nearest?` finds the scale of a quotient from its size
and rounds once. `Basin.of` gives the interval around a magnitude.

**Results.** `nearest?_of_holds`: every quotient in the basin of a magnitude
rounds to it. Right below a power of two the quotient has the scale below, and
rounding carries it up.
-/

namespace TickRelay

/-- The integer within half a step is the rounded one; with a half to spare
only an even one is. -/
theorem roundHalfEven_eq {a b k : Nat} (hb : 0 < b)
    (hlow : 2 * (k * b) ≤ 2 * a + b) (hhigh : 2 * a ≤ 2 * (k * b) + b)
    (htie : k % 2 = 1 → 2 * (k * b) ≠ 2 * a + b ∧ 2 * a ≠ 2 * (k * b) + b) :
    roundHalfEven a b = k := by
  have hdiv : b * (a / b) + a % b = a := Nat.div_add_mod a b
  have hmod : a % b < b := Nat.mod_lt a hb
  have hcomm : b * (a / b) = a / b * b := Nat.mul_comm _ _
  have hle : a / b ≤ k := by
    refine Nat.le_of_lt_succ (Nat.lt_of_mul_lt_mul_right (a := b) ?_)
    rw [Nat.succ_mul]
    omega
  have hge : k ≤ a / b + 1 := by
    refine Nat.le_of_lt_succ (Nat.lt_of_mul_lt_mul_right (a := b) ?_)
    rw [Nat.succ_mul, Nat.add_mul]
    omega
  unfold roundHalfEven
  dsimp only
  obtain hk | hk : k = a / b ∨ k = a / b + 1 := by omega
  · rw [hk] at hlow hhigh htie ⊢
    split
    · rfl
    · split
      · omega
      · omega
  · rw [hk, Nat.add_mul] at hlow hhigh htie
    rw [hk]
    split
    · omega
    · split
      · rfl
      · omega

namespace Basin

theorem holds_iff {b : Basin} {x : Nat} :
    b.holds x = true ↔
      b.low ≤ x ∧ x ≤ b.high ∧
      (b.closed = false → b.low ≠ x ∧ x ≠ b.high) := by
  unfold holds
  cases b.closed with
  | true => simp
  | false =>
    simp only [Bool.false_eq_true, if_false, Bool.and_eq_true,
      decide_eq_true_eq, forall_const]
    omega

end Basin

/-- The rounding of a quotient whose scale and rounded mantissa are known. -/
theorem Format.round_of_scale (f : Format) {num den s k : Nat} {r : Nat × Nat}
    (hs : (f.quotient num den).log2 + 1 - f.precision = s)
    (hk : roundHalfEven (num * Nat.pow 2 f.grain) (den * Nat.pow 2 s) = k)
    (hr : (if k = Nat.pow 2 f.precision
      then (Nat.pow 2 (f.precision - 1), s + 1) else (k, s)) = r)
    (htop : r.2 ≤ f.top) : f.round num den = some r := by
  subst hs hk hr
  exact if_pos htop

namespace Magnitude

variable {num den : Nat}

theorem nearest?_of_round {m : Magnitude}
    (h : Format.double.round num den = some (m.mantissa, m.scale)) :
    nearest? num den = some m := by
  unfold nearest?
  rw [h]
  exact dif_pos ⟨m.mantissa_lt, m.scale_le, m.normal⟩

section Binades

-- `n / den` is a quotient in units of the format, and `step` the step of the
-- numbers of scale `s`.
variable {n M s step : Nat} (hn : num * Nat.pow 2 Format.double.grain = n)
  (hden : 0 < den)

include hn hden

/-- The scale of a quotient whose mantissa has all its bits. -/
theorem scale_eq (hstep : den * Nat.pow 2 s = step)
    (hlow : Nat.pow 2 52 * step ≤ n) (hhigh : n < Nat.pow 2 53 * step) :
    (Format.double.quotient num den).log2 + 1 - 53 = s := by
  have hpow (e : Nat) : Nat.pow 2 (e + s) * den = Nat.pow 2 e * step := by
    have hsum : Nat.pow 2 (e + s) = Nat.pow 2 e * Nat.pow 2 s :=
      Nat.pow_add 2 e s
    rw [hsum, Nat.mul_assoc, Nat.mul_comm _ den, hstep]
  have hle : Nat.pow 2 (52 + s) ≤ n / den := by
    rw [Nat.le_div_iff_mul_le hden, hpow]
    exact hlow
  have hlt : n / den < Nat.pow 2 (53 + s) := by
    rw [Nat.div_lt_iff_lt_mul hden, hpow]
    exact hhigh
  have hpos : 0 < Nat.pow 2 (52 + s) := Nat.pow_pos (by decide)
  have hlog : (n / den).log2 = 52 + s := by
    rw [Nat.log2_eq_iff (by omega), Nat.add_right_comm]
    exact ⟨hle, hlt⟩
  rw [Format.quotient, hn, hlog]
  omega

/-- A quotient that has the scale of the magnitude, or one below the normal
numbers. -/
theorem round_within (hM : M < Nat.pow 2 53) (hs : s ≤ 2045)
    (hstep : den * Nat.pow 2 s = step)
    (hscale : s = 0 ∨ Nat.pow 2 52 * step ≤ n)
    (hlow : 2 * (M * step) ≤ 2 * n + step)
    (hhigh : 2 * n ≤ 2 * (M * step) + step)
    (htie : M % 2 = 1 → 2 * (M * step) ≠ 2 * n + step ∧
      2 * n ≠ 2 * (M * step) + step) :
    Format.double.round num den = some (M, s) := by
  have hpos : 0 < step := hstep ▸ Nat.mul_pos hden (Nat.pow_pos (by decide))
  have hmantissa : roundHalfEven n step = M :=
    roundHalfEven_eq hpos hlow hhigh htie
  have hbelow : n < Nat.pow 2 53 * step := by
    have hle : (M + 1) * step ≤ Nat.pow 2 53 * step :=
      Nat.mul_le_mul_right _ hM
    rw [Nat.add_mul] at hle
    omega
  refine Format.double.round_of_scale ?_ (by rw [hn, hstep, hmantissa])
    (if_neg (Nat.ne_of_lt hM)) hs
  rcases hscale with rfl | habove
  · have hstep : den = step := (Nat.mul_one den).symm.trans hstep
    have hq : Format.double.quotient num den < Nat.pow 2 53 := by
      rw [Format.quotient, hn, Nat.div_lt_iff_lt_mul hden, hstep]
      exact hbelow
    show (Format.double.quotient num den).log2 + 1 - 53 = 0
    by_cases hzero : Format.double.quotient num den = 0
    · rw [hzero, Nat.log2_zero]
    · have hlog := (Nat.log2_lt hzero).mpr hq
      omega
  · exact scale_eq hn hden hstep habove hbelow

/-- A quotient right below a power of two has the scale below, and is carried
up. -/
theorem round_carried (hs : s + 1 ≤ 2045) (hstep : den * Nat.pow 2 s = step)
    (hlow : 2 * (Nat.pow 2 53 * step) ≤ 2 * n + step)
    (hhigh : n < Nat.pow 2 53 * step) :
    Format.double.round num den = some (Nat.pow 2 52, s + 1) := by
  have hpos : 0 < step := hstep ▸ Nat.mul_pos hden (Nat.pow_pos (by decide))
  have hmantissa : roundHalfEven n step = Nat.pow 2 53 :=
    roundHalfEven_eq hpos hlow (by omega) fun hodd => absurd hodd (by decide)
  have hdouble : Nat.pow 2 53 * step = 2 * (Nat.pow 2 52 * step) :=
    Nat.mul_assoc 2 (Nat.pow 2 52) step
  have hself : step ≤ Nat.pow 2 52 * step :=
    Nat.le_mul_of_pos_left step (Nat.pow_pos (by decide))
  have hscale := scale_eq hn hden hstep (by omega) hhigh
  exact Format.double.round_of_scale hscale
    (by rw [hn, hstep]; exact hmantissa) (if_pos rfl) hs

variable {m : Magnitude} (hstep : den * Nat.pow 2 m.scale = step)

include hstep

/-- At a power of two the basin reaches down by half as much as it reaches
up. -/
theorem round_of_power (hpower : m.mantissa = Nat.pow 2 52 ∧ m.scale ≠ 0)
    (hlow : 4 * (m.mantissa * step) - step ≤ 4 * n)
    (hhigh : 4 * n ≤ 4 * (m.mantissa * step) + 2 * step) :
    Format.double.round num den = some (m.mantissa, m.scale) := by
  by_cases habove : Nat.pow 2 52 * step ≤ n
  · refine round_within hn hden m.mantissa_lt m.scale_le hstep
      (.inr habove) ?_ (by omega) ?_
    · rw [hpower.1]
      omega
    · rw [hpower.1]
      exact fun hodd => absurd hodd (by decide)
  · -- Below the power of two the step is half as wide.
    obtain ⟨s, hs⟩ : ∃ s, m.scale = s + 1 := ⟨m.scale - 1, by omega⟩
    obtain ⟨half, hhalf⟩ : ∃ half, den * Nat.pow 2 s = half := ⟨_, rfl⟩
    have htwice : step = 2 * half := by
      have hsucc : Nat.pow 2 (s + 1) = Nat.pow 2 s * 2 := rfl
      rw [← hstep, hs, hsucc, ← hhalf]
      ring
    have hdouble : Nat.pow 2 53 * half = Nat.pow 2 52 * step := by
      rw [htwice]
      exact Nat.mul_assoc (Nat.pow 2 52) 2 half
    rw [hpower.1] at hlow ⊢
    rw [hs]
    exact round_carried hn hden (hs ▸ m.scale_le) hhalf (by omega) (by omega)

/-- Elsewhere the basin reaches half a step either way, and its ends belong to
even mantissas. -/
theorem round_of_plain (hpower : ¬(m.mantissa = Nat.pow 2 52 ∧ m.scale ≠ 0))
    (hlow : 4 * (m.mantissa * step) - 2 * step ≤ 4 * n)
    (hhigh : 4 * n ≤ 4 * (m.mantissa * step) + 2 * step)
    (htie : m.mantissa % 2 = 1 → 4 * (m.mantissa * step) - 2 * step ≠ 4 * n ∧
      4 * n ≠ 4 * (m.mantissa * step) + 2 * step) :
    Format.double.round num den = some (m.mantissa, m.scale) := by
  have hpos : 0 < step := hstep ▸ Nat.mul_pos hden (Nat.pow_pos (by decide))
  refine round_within hn hden m.mantissa_lt m.scale_le hstep ?_
    (by omega) (by omega) ?_
  · by_cases hzero : m.scale = 0
    · exact .inl hzero
    · have hbits := m.normal.resolve_left hzero
      have hmore : (Nat.pow 2 52 + 1) * step ≤ m.mantissa * step :=
        Nat.mul_le_mul_right _ (by omega)
      rw [Nat.add_mul] at hmore
      exact .inr (by omega)
  · intro hodd
    have hopen := htie hodd
    omega

end Binades

theorem one_eq : one = Nat.pow 2 Format.double.grain := by decide +kernel

/-- Every quotient in the basin of a magnitude rounds to it. -/
theorem nearest?_of_holds {m : Magnitude} (hden : 0 < den)
    (h : ((Basin.of m).times den).holds (num * (4 * one)) = true) :
    nearest? num den = some m := by
  obtain ⟨hlow, hhigh, htie⟩ := Basin.holds_iff.mp h
  obtain ⟨n, hn⟩ : ∃ n, num * Nat.pow 2 Format.double.grain = n := ⟨_, rfl⟩
  obtain ⟨step, hstep⟩ : ∃ step, den * Nat.pow 2 m.scale = step := ⟨_, rfl⟩
  have hfour : num * (4 * one) = 4 * n := by
    rw [one_eq, ← hn, Nat.mul_left_comm]
  have hvalue : 4 * m.units * den = 4 * (m.mantissa * step) := by
    rw [units, ← hstep]
    ring
  have htop :
      ((Basin.of m).times den).high = 4 * (m.mantissa * step) + 2 * step := by
    show (4 * m.units + 2 * Nat.pow 2 m.scale) * den = _
    rw [Nat.add_mul, hvalue, ← hstep]
    ring
  have hclosed :
      ((Basin.of m).times den).closed = decide (m.mantissa % 2 = 0) := rfl
  rw [hfour] at hlow
  rw [hfour, htop] at hhigh
  rw [hfour, htop, hclosed] at htie
  refine nearest?_of_round ?_
  by_cases hpower : m.mantissa = Nat.pow 2 52 ∧ m.scale ≠ 0
  · have hbottom :
        ((Basin.of m).times den).low = 4 * (m.mantissa * step) - step := by
      show (4 * m.units - (if _ then Nat.pow 2 m.scale else _)) * den = _
      rw [if_pos hpower, Nat.sub_mul, hvalue, Nat.mul_comm _ den, hstep]
    rw [hbottom] at hlow
    exact round_of_power hn hden hstep hpower hlow hhigh
  · have hbottom :
        ((Basin.of m).times den).low = 4 * (m.mantissa * step) - 2 * step := by
      show (4 * m.units - (if _ then _ else 2 * Nat.pow 2 m.scale)) * den = _
      rw [if_neg hpower, Nat.sub_mul, hvalue, Nat.mul_assoc,
        Nat.mul_comm _ den, hstep]
    rw [hbottom] at hlow htie
    exact round_of_plain hn hden hstep hpower hlow hhigh fun hodd =>
      htie (decide_eq_false (by omega))

end Magnitude
end TickRelay
