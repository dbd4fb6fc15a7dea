import TickRelay.Json.Number
import Mathlib.Data.Nat.Log
import Mathlib.Tactic.Ring

/-!
# Numbers that are read are finite

**Input.** A number of JSON.

**Results.** `Format.round_spec`: a quotient that is not too large is rounded
to a canonical mantissa and scale, and changes by a factor of two at most. So
an integer of 65 bits and its quotient by a power of ten are finite, and with
the texts, which are refused when they are too large, every number that is read
(`finite_of_readFloat`).
-/

namespace TickRelay

theorem roundHalfEven_between (a b : Nat) :
    a / b ≤ roundHalfEven a b ∧ roundHalfEven a b ≤ a / b + 1 := by
  unfold roundHalfEven
  dsimp only
  split
  · omega
  · split
    · omega
    · omega

namespace Format

/-- A mantissa and a scale in the one form that a number has in a format. -/
structure Canonical (f : Format) (r : Nat × Nat) : Prop where
  mantissa_lt : r.1 < Nat.pow 2 f.precision
  scale_le : r.2 ≤ f.top
  normal : r.2 = 0 ∨ Nat.pow 2 (f.precision - 1) ≤ r.1

/-- The quotient in units of the format, rounded down. -/
def quotient (f : Format) (num den : Nat) : Nat :=
  num * Nat.pow 2 f.grain / den

section Shift

-- The scale of a number is chosen so that its mantissa has `p` bits, if it has
-- as many.
variable {p q : Nat} (hp : 0 < p)

theorem div_scale_lt : q / Nat.pow 2 (q.log2 + 1 - p) < Nat.pow 2 p := by
  have hpos : 0 < Nat.pow 2 (q.log2 + 1 - p) := Nat.pow_pos (by decide)
  rw [Nat.div_lt_iff_lt_mul hpos]
  have hle : Nat.pow 2 (q.log2 + 1) ≤ Nat.pow 2 (p + (q.log2 + 1 - p)) :=
    Nat.pow_le_pow_right (by decide) (by omega)
  have hsum :
      Nat.pow 2 (p + (q.log2 + 1 - p)) =
        Nat.pow 2 p * Nat.pow 2 (q.log2 + 1 - p) :=
    Nat.pow_add 2 p _
  exact Nat.lt_of_lt_of_le Nat.lt_log2_self (hsum ▸ hle)

include hp

theorem le_div_scale (hlarge : p ≤ q.log2 + 1) (hq : q ≠ 0) :
    Nat.pow 2 (p - 1) ≤ q / Nat.pow 2 (q.log2 + 1 - p) := by
  have hpos : 0 < Nat.pow 2 (q.log2 + 1 - p) := Nat.pow_pos (by decide)
  rw [Nat.le_div_iff_mul_le hpos]
  have hsum :
      Nat.pow 2 (p - 1) * Nat.pow 2 (q.log2 + 1 - p) = Nat.pow 2 q.log2 := by
    have hexp : p - 1 + (q.log2 + 1 - p) = q.log2 := by omega
    exact (Nat.pow_add 2 (p - 1) _).symm.trans (congrArg (Nat.pow 2) hexp)
  rw [hsum]
  exact Nat.log2_self_le hq

theorem scale_le_self : Nat.pow 2 (q.log2 + 1 - p) ≤ q + 1 := by
  by_cases hq : q = 0
  · have hzero : q.log2 + 1 - p = 0 := by
      rw [hq, Nat.log2_zero]
      omega
    rw [hzero]
    exact Nat.le_add_left 1 q
  · have hle : Nat.pow 2 (q.log2 + 1 - p) ≤ Nat.pow 2 q.log2 :=
      Nat.pow_le_pow_right (by decide) (by omega)
    exact Nat.le_succ_of_le (Nat.le_trans hle (Nat.log2_self_le hq))

end Shift

/-- A quotient that is not too large is rounded to the form of the format, and
changes by a factor of two at most. -/
theorem round_spec (f : Format) (hp : 0 < f.precision) {num den : Nat}
    (hsize : (f.quotient num den).log2 + 2 ≤ f.top + f.precision) :
    ∃ r, f.round num den = some r ∧ f.Canonical r ∧
      f.quotient num den ≤ 2 * (r.1 * Nat.pow 2 r.2) ∧
      r.1 * Nat.pow 2 r.2 ≤ 2 * f.quotient num den + 1 := by
  set q := f.quotient num den with hq
  set s := q.log2 + 1 - f.precision with hs
  set m := roundHalfEven (num * Nat.pow 2 f.grain) (den * Nat.pow 2 s) with hm
  have hround : f.round num den =
      let r :=
        if m = Nat.pow 2 f.precision then (Nat.pow 2 (f.precision - 1), s + 1)
        else (m, s)
      if r.2 ≤ f.top then some r else none := rfl
  obtain ⟨hlow, hhigh⟩ :=
    roundHalfEven_between (num * Nat.pow 2 f.grain) (den * Nat.pow 2 s)
  have hdiv :
      num * Nat.pow 2 f.grain / (den * Nat.pow 2 s) = q / Nat.pow 2 s :=
    (Nat.div_div_eq_div_mul _ _ _).symm
  rw [hdiv, ← hm] at hlow hhigh
  have hlt : q / Nat.pow 2 s < Nat.pow 2 f.precision := div_scale_lt
  have hdouble : Nat.pow 2 f.precision = Nat.pow 2 (f.precision - 1) * 2 := by
    have hexp : f.precision = f.precision - 1 + 1 := by omega
    exact congrArg (Nat.pow 2) hexp
  have hpos : 0 < Nat.pow 2 (f.precision - 1) := Nat.pow_pos (by decide)
  have hnormal : s = 0 ∨ Nat.pow 2 (f.precision - 1) ≤ m := by
    by_cases hzero : s = 0
    · exact Or.inl hzero
    · refine Or.inr (Nat.le_trans (le_div_scale hp (by omega) ?_) hlow)
      intro hq0
      rw [hq0, Nat.log2_zero] at hs
      omega
  have hfloor : Nat.pow 2 s * (q / Nat.pow 2 s) + q % Nat.pow 2 s = q :=
    Nat.div_add_mod q _
  have hrest : q % Nat.pow 2 s < Nat.pow 2 s :=
    Nat.mod_lt _ (Nat.pow_pos (by decide))
  have habove : q ≤ 2 * (m * Nat.pow 2 s) := by
    have hmul : Nat.pow 2 s * (q / Nat.pow 2 s) ≤ Nat.pow 2 s * m :=
      Nat.mul_le_mul_left _ hlow
    rw [Nat.mul_comm m]
    rcases hnormal with hzero | hlarge
    · have hone : Nat.pow 2 s = 1 := by rw [hzero]
      rw [hone] at hmul hfloor hrest ⊢
      omega
    · have hself : Nat.pow 2 s * 1 ≤ Nat.pow 2 s * m :=
        Nat.mul_le_mul_left _ (by omega)
      omega
  have hbelow : m * Nat.pow 2 s ≤ 2 * q + 1 := by
    have hself : Nat.pow 2 s ≤ q + 1 := scale_le_self hp
    have hmul : Nat.pow 2 s * m ≤ Nat.pow 2 s * (q / Nat.pow 2 s + 1) :=
      Nat.mul_le_mul_left _ hhigh
    rw [Nat.mul_add, Nat.mul_one] at hmul
    rw [Nat.mul_comm m]
    omega
  by_cases hcarry : m = Nat.pow 2 f.precision
  · -- Rounding up has made the mantissa one bit longer, so the quotient has
    -- all its bits.
    have hbits : f.precision - 1 ≤ q.log2 := by
      have hle : q / Nat.pow 2 s ≤ q := Nat.div_le_self _ _
      have hbound : Nat.pow 2 (f.precision - 1) ≤ q := by omega
      exact (Nat.le_log2 (by omega)).mpr hbound
    have htop : s + 1 ≤ f.top := by omega
    have hsame :
        Nat.pow 2 (f.precision - 1) * Nat.pow 2 (s + 1) = m * Nat.pow 2 s := by
      have hsucc : Nat.pow 2 (s + 1) = Nat.pow 2 s * 2 := rfl
      rw [hsucc, hcarry, hdouble, Nat.mul_assoc, Nat.mul_comm 2]
    refine ⟨(Nat.pow 2 (f.precision - 1), s + 1), ?_,
      ⟨?_, htop, Or.inr (Nat.le_refl _)⟩, ?_⟩
    · rw [hround]
      simp only [hcarry, if_true, htop]
    · dsimp only
      omega
    · dsimp only
      rw [hsame]
      exact ⟨habove, hbelow⟩
  · have htop : s ≤ f.top := by omega
    refine ⟨(m, s), ?_, ⟨by omega, htop, hnormal⟩, habove, hbelow⟩
    rw [hround]
    simp only [hcarry, if_false, htop, if_true]

theorem unit_pos (f : Format) : 0 < Nat.pow 2 f.grain :=
  Nat.pow_pos (by decide)

theorem quotient_one (f : Format) (n : Nat) :
    f.quotient n 1 = n * Nat.pow 2 f.grain := Nat.div_one _

/-- How large a quotient is in units of the format. -/
theorem log2_quotient_le (f : Format) {num den e : Nat} (hden : 0 < den)
    (hnum : num < den * Nat.pow 2 e) :
    (f.quotient num den).log2 ≤ e + f.grain := by
  have hlt : f.quotient num den < Nat.pow 2 (e + f.grain) := by
    have hsum : Nat.pow 2 (e + f.grain) = Nat.pow 2 e * Nat.pow 2 f.grain :=
      Nat.pow_add 2 e f.grain
    have hpos : 0 < Nat.pow 2 f.grain := Nat.pow_pos (by decide)
    unfold quotient
    rw [Nat.div_lt_iff_lt_mul hden, hsum, Nat.mul_comm _ den, ← Nat.mul_assoc]
    exact Nat.mul_lt_mul_of_pos_right hnum hpos
  by_cases hq : f.quotient num den = 0
  · rw [hq, Nat.log2_zero]
    exact Nat.zero_le _
  · exact Nat.le_of_lt ((Nat.log2_lt hq).mpr hlt)

end Format

namespace Magnitude

/-- A quotient far below the greatest number has a magnitude. -/
theorem nearest?_spec {num den e : Nat} (hden : 0 < den) (he : e ≤ 900)
    (hnum : num < den * Nat.pow 2 e) :
    ∃ m, nearest? num den = some m ∧
      Format.double.quotient num den ≤ 2 * m.units ∧
        m.units ≤ 2 * Format.double.quotient num den + 1 := by
  have hlog := Format.double.log2_quotient_le hden hnum
  have hgrain : Format.double.grain = 1074 := rfl
  have htop : Format.double.top + Format.double.precision = 2098 := rfl
  have hsize : (Format.double.quotient num den).log2 + 2 ≤
      Format.double.top + Format.double.precision := by omega
  obtain ⟨r, hround, hcanonical, hunits⟩ :=
    Format.double.round_spec (by decide) hsize
  refine ⟨⟨r.1, r.2, hcanonical.mantissa_lt, hcanonical.scale_le,
    hcanonical.normal⟩, ?_, hunits⟩
  unfold nearest? ofParts?
  rw [hround]
  exact dif_pos ⟨hcanonical.mantissa_lt, hcanonical.scale_le,
    hcanonical.normal⟩

end Magnitude

namespace Binary64

-- The body is opened as a function: on arguments the kernel would run the
-- rounding.
theorem ofRatio_eq (negative : Bool) (num den : Nat) :
    ofRatio negative num den =
      (Magnitude.nearest? num den).elim (infinite negative)
        (finite negative) := by
  have hdef : ofRatio = fun negative num den =>
      (Magnitude.nearest? num den).elim (infinite negative)
          (finite negative) := by
    delta ofRatio
    funext negative num den
    generalize Magnitude.nearest? num den = r
    cases r with
    | none => rfl
    | some m => rfl
  rw [hdef]

theorem finite_ofRatio {negative : Bool} {num den e : Nat} (hden : 0 < den)
    (he : e ≤ 900) (hnum : num < den * Nat.pow 2 e) :
    (ofRatio negative num den).isFinite = true := by
  obtain ⟨m, hm, -⟩ := Magnitude.nearest?_spec hden he hnum
  rw [ofRatio_eq, hm]
  rfl

theorem finite_neg (x : Binary64) : x.neg.isFinite = x.isFinite := by
  cases x <;> rfl

theorem finite_ofText? {s : Bytes} {x : Binary64} (h : ofText? s = some x) :
    x.isFinite = true := by
  obtain ⟨d, -, hd⟩ := Option.bind_eq_some_iff.mp h
  obtain ⟨m, -, rfl⟩ := Option.map_eq_some_iff.mp hd
  rfl

theorem ofInt_spec {n e : Nat} (he : e ≤ 900) (hn : n < Nat.pow 2 e) :
    ∃ m : Magnitude, ofInt n = finite false m ∧
      Format.double.quotient n 1 ≤ 2 * m.units ∧
        m.units ≤ 2 * Format.double.quotient n 1 + 1 := by
  have hnum : n < 1 * Nat.pow 2 e := by omega
  obtain ⟨m, hm, hunits⟩ := Magnitude.nearest?_spec Nat.one_pos he hnum
  refine ⟨m, ?_, hunits⟩
  have hsign : decide ((n : Int) < 0) = false := by simp
  rw [ofInt, ofRatio_eq, Int.natAbs_natCast, hm, hsign, Option.elim_some]

/-- The quotient of an integer by a positive one is finite. -/
theorem finite_div {n k e : Nat} (he : e ≤ 800) (hn : n < Nat.pow 2 e)
    (hk : 0 < k) (hk' : k < Nat.pow 2 e) :
    (div (ofInt n) (ofInt k)).isFinite = true := by
  obtain ⟨a, ha, -, habove⟩ := ofInt_spec (by omega) hn
  obtain ⟨b, hb, hbelow, -⟩ := ofInt_spec (by omega) hk'
  rw [Format.quotient_one] at habove hbelow
  have hunit := Format.double.unit_pos
  generalize Nat.pow 2 Format.double.grain = unit at habove hbelow hunit
  have hk1 : 1 * unit ≤ k * unit := Nat.mul_le_mul_right _ hk
  have hpositive : 0 < b.units := by omega
  have hmantissa : b.mantissa ≠ 0 := by
    intro hzero
    rw [Magnitude.units, hzero, Nat.zero_mul] at hpositive
    exact Nat.lt_irrefl 0 hpositive
  have hdiv :
      div (finite false a) (finite false b) = ofRatio false a.units b.units :=
    if_neg hmantissa
  rw [ha, hb, hdiv]
  refine finite_ofRatio hpositive (by omega : e + 2 ≤ 900) ?_
  have hlt : n * unit < Nat.pow 2 e * unit :=
    Nat.mul_lt_mul_of_pos_right hn hunit
  have hle : Nat.pow 2 e * unit ≤ Nat.pow 2 e * (2 * b.units) :=
    Nat.mul_le_mul_left _ (by omega)
  have hfour :
      b.units * Nat.pow 2 (e + 2) = 2 * (Nat.pow 2 e * (2 * b.units)) := by
    have hsucc : Nat.pow 2 (e + 2) = Nat.pow 2 e * 2 * 2 := rfl
    rw [hsucc]
    ring
  omega

end Binary64

namespace Json

/-- The digits of a quickly read number are one digit more than the check
allows at most. -/
theorem safeValue?_lt {ds : Bytes} {n : Nat} (h : safeValue? ds = some n) :
    n < Nat.pow 2 65 := by
  suffices hfold : ∀ (ds : Bytes) (a : Nat), a < Nat.pow 2 65 →
    ds.foldlM (fun n b => if n ≤ safeNumber then
    some (10 * n + Bytes.digitValue b) else none) a = some n →
    n < Nat.pow 2 65 from hfold ds 0 (by decide) h
  intro ds
  induction ds with
  | nil =>
      intro a ha heq
      cases heq
      exact ha
  | cons b ds ih =>
      intro a ha heq
      obtain ⟨a', hstep, hrest⟩ := Option.bind_eq_some_iff.mp heq
      refine ih a' ?_ hrest
      dsimp only at hstep
      split at hstep
      · rename_i hsafe
        cases hstep
        have hbound : 10 * safeNumber + 255 < Nat.pow 2 65 := by decide
        have hbyte := b.toNat_lt
        unfold Bytes.digitValue
        omega
      · cases hstep

/-- The forms in which a number is recognised. -/
def FloatToken.Recognised : FloatToken → Prop
  | .quick n places => n < Nat.pow 2 65 ∧ places ≤ 6
  | .text _ => True

theorem recognised_of_quickFloat? {reach : Reach} {s rest : Bytes}
    {token : FloatToken} (h : quickFloat? reach s = some (token, rest)) :
    token.Recognised := by
  unfold quickFloat? at h
  dsimp only at h
  split at h
  · cases h
  · split at h
    · obtain ⟨n, hn, heq⟩ := Option.map_eq_some_iff.mp h
      cases heq
      exact ⟨safeValue?_lt hn, Nat.zero_le 6⟩
    · split at h
      · split at h
        · cases h
        · split at h
          · rename_i hform
            obtain ⟨n, hn, heq⟩ := Option.map_eq_some_iff.mp h
            cases heq
            exact ⟨safeValue?_lt hn, hform.2.2.1⟩
          · cases h
      · cases h

theorem recognised_of_floatToken? {reach : Reach} {s rest : Bytes}
    {token : FloatToken} (h : floatToken? reach s = some (token, rest)) :
    token.Recognised := by
  unfold floatToken? at h
  split at h
  · cases h
  · split at h
    · rename_i r hquick
      cases h
      exact recognised_of_quickFloat? hquick
    · unfold slowFloat? at h
      dsimp only at h
      split at h
      · cases h
        trivial
      · cases h

theorem FloatToken.Recognised.finite {token : FloatToken}
    (htoken : token.Recognised) {x : Binary64} (hx : token.value? = some x) :
    x.isFinite = true := by
  cases token with
  | text s => exact Binary64.finite_ofText? hx
  | quick n places =>
      obtain ⟨hn, hplaces⟩ := htoken
      cases places with
      | zero =>
          cases hx
          obtain ⟨m, hm, -⟩ := Binary64.ofInt_spec (by decide) hn
          rw [hm]
          rfl
      | succ p =>
          cases hx
          have hten : Nat.pow 10 (p + 1) ≤ Nat.pow 10 6 :=
            Nat.pow_le_pow_right (by decide) hplaces
          have hbound : Nat.pow 10 6 < Nat.pow 2 65 := by decide
          exact Binary64.finite_div (by decide) hn
            (Nat.pow_pos (by decide)) (by omega)

theorem finite_of_readFloat {reach : Reach} {s rest : Bytes} {x : Binary64}
    (h : readFloat reach s = some (x, rest)) : x.isFinite = true := by
  unfold readFloat at h
  split at h
  · obtain ⟨⟨token, u⟩, htoken, hvalue⟩ := Option.bind_eq_some_iff.mp h
    obtain ⟨y, hy, heq⟩ := Option.bind_eq_some_iff.mp hvalue
    cases heq
    rw [Binary64.finite_neg]
    exact (recognised_of_floatToken? htoken).finite hy
  · obtain ⟨⟨token, u⟩, htoken, hvalue⟩ := Option.bind_eq_some_iff.mp h
    obtain ⟨y, hy, heq⟩ := Option.bind_eq_some_iff.mp hvalue
    cases heq
    exact (recognised_of_floatToken? htoken).finite hy

end Json
end TickRelay
