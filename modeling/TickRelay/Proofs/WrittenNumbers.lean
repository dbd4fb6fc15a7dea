import TickRelay.Proofs.Numerals
import TickRelay.Proofs.ShortestDecimals

/-!
# Numbers that are written and read

**Algorithm.** A number is written as its decimal, in positional or scientific
form; both are numerals. The reader takes the digits of a numeral as an
integer, moves the point by the length of the fraction and by the exponent, and
rounds the quotient to the nearest number.

**Results.** `ofText?_shortestText`: every finite number is read back as it was
written. `readFloat_shortestText`: the reader of JSON takes the text up to its
last byte.
-/

namespace TickRelay

namespace DecimalText

theorem withoutZeros_cons (b : UInt8) (ds : Bytes) :
    withoutZeros (b :: ds) = if b = 48 then withoutZeros ds else b :: ds := by
  unfold withoutZeros
  rw [List.dropWhile_cons]
  simp

theorem number_withoutZeros (ds : Bytes) :
    Bytes.number (withoutZeros ds) = Bytes.number ds := by
  induction ds with
  | nil => rfl
  | cons b ds ih =>
    rw [withoutZeros_cons]
    split
    · rename_i hb
      rw [ih, hb]
      exact (Bytes.number_zeros 1 ds).symm
    · rfl

theorem mem_withoutZeros {b : UInt8} {ds : Bytes} (h : b ∈ withoutZeros ds) :
    b ∈ ds :=
  (List.dropWhile_sublist _).mem h

/-- Without zeros in front there are no more digits than needed. -/
theorem pow_length_withoutZeros_le {ds : Bytes}
    (hds : ∀ b ∈ ds, Bytes.isDigit b = true) (hpos : Bytes.number ds ≠ 0) :
    10 ^ ((withoutZeros ds).length - 1) ≤ Bytes.number ds := by
  induction ds with
  | nil => exact absurd rfl hpos
  | cons b ds ih =>
    rw [withoutZeros_cons]
    split
    · rename_i hb
      subst hb
      have hzero : Bytes.number (48 :: ds) = Bytes.number ds :=
        Bytes.number_zeros 1 ds
      rw [hzero] at hpos ⊢
      exact ih (fun c hc => hds c (List.mem_cons_of_mem _ hc)) hpos
    · rename_i hb
      have hfirst : 1 ≤ Bytes.number [b] := by
        rw [Bytes.number_singleton]
        exact Bytes.digitValue_pos (hds b List.mem_cons_self) hb
      have hle : 1 * 10 ^ ds.length ≤ Bytes.number [b] * 10 ^ ds.length :=
        Nat.mul_le_mul_right _ hfirst
      have hcons :
          Bytes.number (b :: ds) =
            Bytes.number [b] * 10 ^ ds.length + Bytes.number ds :=
        Bytes.number_append [b] ds
      rw [hcons, List.length_cons, Nat.add_sub_cancel]
      omega

/-- The number that the parts of a decimal text denote, without the sign. -/
def value (d : DecimalText) : ℚ :=
  Bytes.number (d.whole ++ d.fraction) * 10 ^ (d.power - d.fraction.length)

/-- The quotient has the deciding digits, with the point where the scale puts
it. -/
theorem ratio_spec (d : DecimalText) :
    0 < d.ratio.2 ∧ (d.ratio.1 : ℚ) / d.ratio.2 =
      Bytes.number d.deciding * 10 ^ (d.scale - d.deciding.length) := by
  unfold ratio
  dsimp only
  generalize Bytes.number d.deciding = n
  generalize d.scale - d.deciding.length = p
  split
  · rename_i hp
    obtain ⟨k, rfl⟩ := Int.eq_ofNat_of_zero_le hp
    refine ⟨Nat.one_pos, ?_⟩
    rw [Int.toNat_natCast, zpow_natCast, Nat.cast_one, div_one]
    exact Nat.cast_mul n (10 ^ k) |>.trans
      (by rw [Nat.cast_pow, Nat.cast_ofNat])
  · rename_i hp
    obtain ⟨k, rfl⟩ : ∃ k : Nat, p = -k := ⟨(-p).toNat, by omega⟩
    refine ⟨Nat.pow_pos (by decide), ?_⟩
    rw [neg_neg, Int.toNat_natCast, zpow_neg, zpow_natCast, div_eq_mul_inv]
    exact congrArg (fun x : ℚ => n * x⁻¹) (Nat.cast_pow 10 k)

/-- The quotient that is rounded is the number, unless it is far out or has
very many digits. -/
theorem clamped_spec {d : DecimalText}
    (hd : ∀ b ∈ d.whole ++ d.fraction, Bytes.isDigit b = true)
    (hpos : Bytes.number (d.whole ++ d.fraction) ≠ 0)
    (hdigits : ∃ k ≤ 800, Bytes.number (d.whole ++ d.fraction) < 10 ^ k)
    (hlow : (10 : ℚ) ^ (-((324 : Nat) : Int)) < d.value)
    (hhigh : d.value < 10 ^ ((309 : Nat) : Int)) :
    0 < d.clamped.2 ∧ (d.clamped.1 : ℚ) / d.clamped.2 = d.value := by
  have hnumber :
      Bytes.number d.significant = Bytes.number (d.whole ++ d.fraction) :=
    number_withoutZeros _
  have hleast :
      10 ^ (d.significant.length - 1) ≤ Bytes.number (d.whole ++ d.fraction) :=
    pow_length_withoutZeros_le hd hpos
  have hlt :
      Bytes.number (d.whole ++ d.fraction) < 10 ^ d.significant.length := by
    rw [← hnumber]
    exact Bytes.number_lt fun b hb => hd b (mem_withoutZeros hb)
  obtain ⟨hpoint, hpoint'⟩ := exponent_bounds hleast hlt hlow hhigh
  have hsignificant : d.significant ≠ [] := by
    intro hnil
    rw [hnil] at hnumber
    exact hpos hnumber.symm
  have hlength : d.significant.length ≤ 800 := by
    obtain ⟨k, hk, hbound⟩ := hdigits
    have hexponent : d.significant.length - 1 < k :=
      (Nat.pow_lt_pow_iff_right (by decide)).mp
        (Nat.lt_of_le_of_lt hleast hbound)
    omega
  have hdeciding : d.deciding = d.significant := if_pos hlength
  have hclamped : d.clamped = d.ratio := by
    have habove : ¬d.scale > 311 := by
      unfold scale
      omega
    have hbelow : ¬d.scale < -350 := by
      unfold scale
      omega
    rw [clamped, if_neg hsignificant, if_neg habove, if_neg hbelow]
  have hpower :
      d.scale - d.significant.length = d.power - d.fraction.length := by
    unfold scale
    omega
  obtain ⟨hden, hquotient⟩ := d.ratio_spec
  rw [hdeciding, hnumber, hpower] at hquotient
  rw [hclamped]
  exact ⟨hden, hquotient⟩

/-- An exponent below the bound counts in full. -/
theorem power_eq {d : DecimalText} (h : Bytes.number d.exponent < 10000) :
    d.power = if d.lowers then -(Bytes.number d.exponent : Int)
      else Bytes.number d.exponent := by
  have hpush (ds : Bytes) (hds : Bytes.number ds < 10000) :
      ds.foldl (fun n b =>
        if n < 10000 then 10 * n + Bytes.digitValue b else n) 0 =
          Bytes.number ds := by
    induction ds using List.reverseRecOn with
    | nil => rfl
    | append_singleton ds b ih =>
      rw [Bytes.number_concat] at hds ⊢
      rw [List.foldl_append, ih (by omega)]
      exact if_pos (by omega)
  unfold power
  dsimp only
  rw [hpush _ h]

end DecimalText

namespace Numeral

/-- The same number as a decimal, in digits that are all looked at. -/
structure Writes (n : Numeral) (d : Decimal) : Prop where
  ne_zero : Bytes.number (n.whole ++ n.fraction) ≠ 0
  digits : ∃ k ≤ 800, Bytes.number (n.whole ++ n.fraction) < 10 ^ k
  value : ∀ negative, (n.parts negative).value = d.value

theorem fractionText_of_ne_nil {ds : Bytes} (h : ds ≠ []) :
    fractionText ds = 46 :: ds := by
  cases ds with
  | nil => exact absurd rfl h
  | cons b ds => rfl

/-- The exponent of a numeral as a number. -/
def power (n : Numeral) : Int :=
  match n.exponent with
  | none => 0
  | some (lowers, ds) =>
    if lowers then -(Bytes.number ds : Int) else Bytes.number ds

theorem power_parts {n : Numeral} (hpower : n.power.natAbs < 10000)
    (negative : Bool) : (n.parts negative).power = n.power := by
  unfold power at hpower ⊢
  cases hexponent : n.exponent with
  | none =>
    have hdigits : (n.parts negative).exponent = [] := by
      rw [parts, hexponent]; rfl
    rw [DecimalText.power_eq (by rw [hdigits]; decide), hdigits]
    simp [Bytes.number]
  | some e =>
    obtain ⟨lowers, ds⟩ := e
    have hdigits : (n.parts negative).exponent = ds := by
      rw [parts, hexponent]; rfl
    have hlowers : (n.parts negative).lowers = lowers := by
      rw [parts, hexponent]; rfl
    rw [hexponent] at hpower
    have hsmall : Bytes.number ds < 10000 := by
      cases lowers <;> simp at hpower <;> omega
    rw [DecimalText.power_eq (by rwa [hdigits]), hdigits, hlowers]

/-- Zeros after the digits of a decimal make up for its power. -/
theorem writes_of_number {n : Numeral} {d : Decimal} {j : Nat}
    (hpos : 0 < d.coefficient)
    (hnumber : Bytes.number (n.whole ++ n.fraction) = d.coefficient * 10 ^ j)
    (hdigits : ∃ k ≤ 800, d.coefficient * 10 ^ j < 10 ^ k)
    (hpower : n.power.natAbs < 10000)
    (hpoint : n.power - n.fraction.length = d.power - j) : n.Writes d := by
  refine ⟨?_, by rwa [hnumber], fun negative => ?_⟩
  · rw [hnumber]
    exact (Nat.mul_pos hpos (Nat.pow_pos (by decide))).ne'
  · show (Bytes.number (n.whole ++ n.fraction) : ℚ) *
      10 ^ ((n.parts negative).power - n.fraction.length) = _
    rw [power_parts hpower, hpoint, hnumber, Decimal.value,
      zpow_sub₀ (by norm_num), zpow_natCast]
    push_cast
    field_simp

end Numeral

/-- Digits without zeros in front. -/
structure Significand where
  first : UInt8
  others : Bytes
  isDigit_first : Bytes.isDigit first = true
  isDigit_others : ∀ b ∈ others, Bytes.isDigit b = true
  first_ne_zero : first ≠ 48

namespace Significand

variable (s : Significand)

/-- All digits. -/
def digits : Bytes := s.first :: s.others

theorem isDigit_digits : ∀ b ∈ s.digits, Bytes.isDigit b = true :=
  List.forall_mem_cons.mpr ⟨s.isDigit_first, s.isDigit_others⟩

theorem exists_digits {c : Nat} (hc : c ≠ 0) :
    ∃ s : Significand, s.digits = Bytes.decimal c := by
  obtain ⟨b, t, hcons, hb⟩ := Bytes.head_decimal hc
  have hds : ∀ a ∈ b :: t, Bytes.isDigit a = true :=
    fun a ha => Bytes.isDigit_of_mem_decimal (by rwa [hcons])
  obtain ⟨hfirst, hothers⟩ := List.forall_mem_cons.mp hds
  exact ⟨⟨b, t, hfirst, hothers, hb⟩, hcons.symm⟩

/-- The digits after a point and `k` zeros. -/
def below (k : Nat) : Numeral where
  whole := [48]
  fraction := List.replicate k 48 ++ s.digits
  exponent := none
  isDigit_whole := by simp [Bytes.isDigit]
  isDigit_fraction :=
    List.forall_mem_append.mpr ⟨Bytes.isDigit_of_mem_replicate k,
      s.isDigit_digits⟩
  isDigit_exponent := Numeral.isDigit_none
  whole_ne_nil := List.cons_ne_nil _ _
  leading := .inl rfl

/-- The digits with a point after the first one and `k` others. -/
def among (k : Nat) : Numeral where
  whole := s.first :: s.others.take k
  fraction := s.others.drop k
  exponent := none
  isDigit_whole := List.forall_mem_cons.mpr
    ⟨s.isDigit_first, fun b hb => s.isDigit_others b (List.mem_of_mem_take hb)⟩
  isDigit_fraction := fun b hb => s.isDigit_others b (List.mem_of_mem_drop hb)
  isDigit_exponent := Numeral.isDigit_none
  whole_ne_nil := List.cons_ne_nil _ _
  leading := .inr fun heq => s.first_ne_zero (Option.some.inj heq)

/-- The digits and `k` zeros. -/
def above (k : Nat) : Numeral where
  whole := s.digits ++ List.replicate k 48
  fraction := []
  exponent := none
  isDigit_whole :=
    List.forall_mem_append.mpr
      ⟨s.isDigit_digits, Bytes.isDigit_of_mem_replicate k⟩
  isDigit_fraction := Numeral.isDigit_nil
  isDigit_exponent := Numeral.isDigit_none
  whole_ne_nil := List.cons_ne_nil _ _
  leading := .inr fun heq => s.first_ne_zero (Option.some.inj heq)

/-- The digits with a point after the first one, and an exponent of `width`
digits or more. -/
def raised (width : Nat) (e : Int) : Numeral where
  whole := [s.first]
  fraction := s.others
  exponent := some (decide (e < 0), Bytes.paddedDecimal width e.natAbs)
  isDigit_whole := List.forall_mem_singleton.mpr s.isDigit_first
  isDigit_fraction := s.isDigit_others
  isDigit_exponent := by
    intro x hx
    obtain rfl := Option.some.inj hx
    exact ⟨Bytes.paddedDecimal_ne_nil _ _,
      fun b hb => Bytes.isDigit_of_mem_paddedDecimal hb⟩
  whole_ne_nil := List.cons_ne_nil _ _
  leading := .inr fun heq => s.first_ne_zero (Option.some.inj heq)

theorem power_raised (width : Nat) (e : Int) :
    (s.raised width e).power = e := by
  show (if decide (e < 0) = true then
    -(Bytes.number (Bytes.paddedDecimal width e.natAbs) : Int)
    else Bytes.number (Bytes.paddedDecimal width e.natAbs)) = e
  rw [Bytes.number_paddedDecimal]
  by_cases he : e < 0
  · rw [if_pos (decide_eq_true he)]
    omega
  · rw [if_neg (by simpa using he)]
    omega

section Text

variable {point : Int}

theorem positional_below (hpoint : point ≤ 0) :
    Decimal.positional s.digits point = (s.below (-point).toNat).text := by
  have hne : List.replicate (-point).toNat 48 ++ s.digits ≠ [] :=
    List.append_ne_nil_of_right_ne_nil _ (List.cons_ne_nil _ _)
  rw [Decimal.positional, if_pos hpoint, Numeral.text, Numeral.tail, below,
    Numeral.fractionText_of_ne_nil hne, List.append_assoc]
  exact congrArg ([48, 46] ++ ·) (List.append_nil _).symm

theorem positional_among {k : Nat} (hk : k < s.others.length) :
    Decimal.positional s.digits (k + 1 : Nat) = (s.among k).text := by
  have hne : s.others.drop k ≠ [] := by simpa [List.drop_eq_nil_iff] using hk
  have hlt : k + 1 < s.digits.length := Nat.succ_lt_succ hk
  rw [Decimal.positional, if_neg (by omega), Int.toNat_natCast]
  dsimp only
  rw [if_pos hlt, Numeral.text, Numeral.tail, among,
    Numeral.fractionText_of_ne_nil hne, List.append_assoc]
  exact congrArg (s.first :: s.others.take k ++ ·) (List.append_nil _).symm

theorem positional_above (k : Nat) :
    Decimal.positional s.digits (k + s.digits.length : Nat) =
      (s.above k).text := by
  have hlength : 0 < s.digits.length := Nat.succ_pos _
  rw [Decimal.positional, if_neg (by omega), Int.toNat_natCast]
  dsimp only
  rw [if_neg (by omega), Nat.add_sub_cancel]
  exact (List.append_nil _).symm

theorem scientific_raised (width : Nat) :
    Decimal.scientific s.digits point width =
      (s.raised width (point - 1)).text := by
  have hsign : (if point - 1 < 0 then utf8 "-" else utf8 "+") =
      [if decide (point - 1 < 0) = true then 45 else 43] := by
    by_cases he : point - 1 < 0
    · rw [if_pos he, if_pos (decide_eq_true he)]
      rfl
    · rw [if_neg he, if_neg (by simpa using he)]
      rfl
  unfold Decimal.scientific
  dsimp only
  rw [hsign]
  obtain ⟨first, others, hfirst, hothers, hne⟩ := s
  cases others with
  | nil => rfl
  | cons b t =>
    show [first] ++ ([46] ++ b :: t) ++ [101] ++ [_] ++
      Bytes.paddedDecimal width _ = [first] ++
      ([46] ++ b :: t ++ ([101] ++ ([_] ++ Bytes.paddedDecimal width _)))
    simp only [List.append_assoc]

end Text

section Value

variable {s} {d : Decimal} (hs : s.digits = Bytes.decimal d.coefficient)
  (hpos : 0 < d.coefficient)
include hs hpos

theorem writes_below (hdigits : ∃ k ≤ 800, d.coefficient < 10 ^ k) {k : Nat}
    (hk : d.power + s.digits.length = -k) : (s.below k).Writes d := by
  refine Numeral.writes_of_number (j := 0) hpos ?_ (by simpa using hdigits)
    (Nat.zero_lt_succ _) ?_
  · calc Bytes.number ([48] ++ (List.replicate k 48 ++ s.digits))
        = Bytes.number (List.replicate k 48 ++ s.digits) :=
        Bytes.number_zeros 1 _
      _ = Bytes.number s.digits := Bytes.number_zeros k _
      _ = d.coefficient * 10 ^ 0 := by
        rw [hs, Bytes.number_decimal, Nat.pow_zero, Nat.mul_one]
  · show 0 - ((List.replicate k 48 ++ s.digits).length : Int) =
      d.power - (0 : Nat)
    rw [List.length_append, List.length_replicate]
    omega

theorem writes_among (hdigits : ∃ k ≤ 800, d.coefficient < 10 ^ k) {k : Nat}
    (hk : d.power + s.digits.length = (k + 1 : Nat))
    (hlt : k < s.others.length) : (s.among k).Writes d := by
  refine Numeral.writes_of_number (j := 0) hpos ?_ (by simpa using hdigits)
    (Nat.zero_lt_succ _) ?_
  · have hsplit : s.first :: s.others.take k ++ s.others.drop k = s.digits :=
      congrArg (s.first :: ·) (List.take_append_drop k s.others)
    show Bytes.number (s.first :: s.others.take k ++ s.others.drop k) = _
    rw [hsplit, hs, Bytes.number_decimal, Nat.pow_zero, Nat.mul_one]
  · have hlength : s.digits.length = s.others.length + 1 := rfl
    show 0 - ((s.others.drop k).length : Int) = d.power - (0 : Nat)
    rw [List.length_drop]
    omega

theorem writes_above {k : Nat} (hk : d.power = k)
    (hshort : k + s.digits.length ≤ 800) : (s.above k).Writes d := by
  have hvalue :
      Bytes.number (s.digits ++ List.replicate k 48) =
        d.coefficient * 10 ^ k := by
    rw [Bytes.number_append, Bytes.number_replicate, List.length_replicate, hs,
      Bytes.number_decimal, Nat.add_zero]
  refine Numeral.writes_of_number (j := k) hpos ?_ ⟨(s.above k).whole.length,
    ?_, ?_⟩ (Nat.zero_lt_succ _) ?_
  · exact (congrArg Bytes.number (List.append_nil _)).trans hvalue
  · show (s.digits ++ List.replicate k 48).length ≤ 800
    rw [List.length_append, List.length_replicate]
    omega
  · rw [← hvalue]
    exact Bytes.number_lt (s.above k).isDigit_whole
  · show 0 - ((0 : Nat) : Int) = d.power - k
    omega

theorem writes_raised (hdigits : ∃ k ≤ 800, d.coefficient < 10 ^ k)
    (width : Nat) (hpoint : (d.power + s.digits.length - 1).natAbs < 10000) :
    (s.raised width (d.power + s.digits.length - 1)).Writes d := by
  refine Numeral.writes_of_number (j := 0) hpos ?_ (by simpa using hdigits)
    (by rwa [power_raised]) ?_
  · show Bytes.number s.digits = _
    rw [hs, Bytes.number_decimal, Nat.pow_zero, Nat.mul_one]
  · have hlength : s.digits.length = s.others.length + 1 := rfl
    rw [power_raised]
    show d.power + s.digits.length - 1 - (s.others.length : Int) =
      d.power - (0 : Nat)
    omega

end Value

end Significand

namespace Decimal

/-- A decimal whose point is not too far from its digits is written as a
numeral of the same value. -/
theorem render_eq (d : Decimal) (hpos : 0 < d.coefficient)
    (hdigits : ∃ k ≤ 800, d.coefficient < 10 ^ k)
    (hpoint : -324 < d.power + (Bytes.decimal d.coefficient).length ∧
      d.power + (Bytes.decimal d.coefficient).length ≤ 309) :
    ∃ n : Numeral, d.render Binary64.layout = n.text ∧ n.Writes d := by
  obtain ⟨s, hs⟩ := Significand.exists_digits hpos.ne'
  have hlength : s.digits.length = s.others.length + 1 := rfl
  unfold render
  rw [← hs] at hpoint ⊢
  dsimp only
  split
  · by_cases hbelow : d.power + s.digits.length ≤ 0
    · exact ⟨_, s.positional_below hbelow,
        Significand.writes_below hs hpos hdigits (by omega)⟩
    · by_cases habove : 0 ≤ d.power
      · obtain ⟨k, hk⟩ := Int.eq_ofNat_of_zero_le habove
        have hsum :
            d.power + s.digits.length = (k + s.digits.length : Nat) := by omega
        rw [hsum]
        exact ⟨_, s.positional_above k,
          Significand.writes_above hs hpos hk (by omega)⟩
      · obtain ⟨k, hk⟩ :
            ∃ k : Nat, d.power + s.digits.length = (k + 1 : Nat) :=
          ⟨(d.power + s.digits.length).toNat - 1, by omega⟩
        rw [hk]
        exact ⟨_, s.positional_among (by omega),
          Significand.writes_among hs hpos hdigits hk (by omega)⟩
  · exact ⟨_, s.scientific_raised _,
      Significand.writes_raised hs hpos hdigits _ (by omega)⟩

end Decimal

namespace Binary64

/-- A numeral in the basin of a magnitude is read as the magnitude. -/
theorem ofText?_of_contains {m : Magnitude} (hm : m.mantissa ≠ 0) {n : Numeral}
    {d : Decimal} (hwrites : n.Writes d)
    (hcontains : (Basin.of m).Contains (d.value * (4 * Magnitude.one : Nat)))
    (negative : Bool) :
    ofText? (signText negative ++ n.text) = some (finite negative m) := by
  obtain ⟨hlow, hhigh⟩ := Magnitude.decimal_bounds hm hcontains
  rw [← hwrites.value negative] at hlow hhigh hcontains
  have hparts : ∀ b ∈ (n.parts negative).whole ++ (n.parts negative).fraction,
      Bytes.isDigit b = true :=
    List.forall_mem_append.mpr ⟨n.isDigit_whole, n.isDigit_fraction⟩
  obtain ⟨hden, hquotient⟩ :=
    DecimalText.clamped_spec hparts hwrites.ne_zero hwrites.digits hlow hhigh
  have hholds : ((Basin.of m).times (n.parts negative).clamped.2).holds
      ((n.parts negative).clamped.1 * (4 * Magnitude.one)) = true := by
    rw [← Basin.contains_natCast_iff]
    rw [← Basin.contains_times_iff hden] at hcontains
    convert hcontains using 1
    have hne : ((n.parts negative).clamped.2 : ℚ) ≠ 0 := by
      exact_mod_cast hden.ne'
    generalize 4 * Magnitude.one = quarter
    rw [← hquotient]
    push_cast
    field_simp
  rw [ofText?, n.parse?_text, Option.bind_some, ofDecimal?,
    Magnitude.nearest?_of_holds hden hholds]
  rfl

theorem ofText?_zero (negative : Bool) :
    ofText? (signText negative ++ (Numeral.ofNat 0).text) =
      some (finite negative Magnitude.zero) := by
  rw [ofText?, Numeral.parse?_text]
  cases negative <;> decide +kernel

/-- Every magnitude is written as a numeral that is read back, with either
sign. -/
theorem exists_numeral (m : Magnitude) :
    ∃ n : Numeral,
    (if m.mantissa = 0 then utf8 "0" else m.shortest.render layout) = n.text ∧
      ∀ negative, ofText? (signText negative ++ n.text) =
        some (finite negative m) := by
  by_cases hm : m.mantissa = 0
  · have hzero : m = Magnitude.zero := by
      obtain ⟨M, s, hM, hs, hnormal⟩ := m
      obtain rfl : M = 0 := hm
      obtain rfl : s = 0 := hnormal.resolve_right (by decide)
      rfl
    refine ⟨Numeral.ofNat 0, if_pos hm, ?_⟩
    rw [hzero]
    exact ofText?_zero
  · obtain ⟨hpos, hdigits, hcontains⟩ := Magnitude.shortest_spec hm
    obtain ⟨hlow, hhigh⟩ := Magnitude.decimal_bounds hm hcontains
    have hpoint := exponent_bounds (Bytes.pow_length_decimal_le hpos.ne')
      (Bytes.lt_pow_length_decimal _) hlow hhigh
    obtain ⟨n, htext, hwrites⟩ := m.shortest.render_eq hpos hdigits hpoint
    rw [if_neg hm]
    exact ⟨n, htext, ofText?_of_contains hm hwrites hcontains⟩

section Finite

variable {x : Binary64} (hx : x.isFinite = true)
include hx

/-- A finite number is written as a numeral after its sign. -/
theorem exists_shortestText :
    ∃ (negative : Bool) (n : Numeral),
    x.shortestText = signText negative ++ n.text ∧
    ofText? (signText negative ++ n.text) = some x ∧
    (ofText? n.text).isSome = true := by
  cases x with
  | nan => cases hx
  | infinite negative => cases hx
  | finite negative m =>
    obtain ⟨n, htext, hread⟩ := exists_numeral m
    refine ⟨negative, n, by rw [shortestText, htext], hread negative, ?_⟩
    rw [← List.nil_append n.text]
    exact Option.isSome_of_eq_some (hread false)

/-- Every finite number is read back as it was written. -/
theorem ofText?_shortestText : ofText? x.shortestText = some x := by
  obtain ⟨negative, n, htext, hread, -⟩ := exists_shortestText hx
  rw [htext, hread]

theorem isNumberByte_shortestText :
    ∀ b ∈ x.shortestText, Json.isNumberByte b = true := by
  obtain ⟨negative, n, htext, -⟩ := exists_shortestText hx
  rw [htext]
  refine List.forall_mem_append.mpr ⟨?_, n.isNumberByte_text⟩
  cases negative with
  | true => exact List.forall_mem_singleton.mpr rfl
  | false => exact nofun

theorem shortestText_ne_nil : x.shortestText ≠ [] := by
  obtain ⟨negative, n, htext, -⟩ := exists_shortestText hx
  obtain ⟨b, t, hcons, -⟩ := n.text_eq_cons
  rw [htext, hcons]
  exact List.append_ne_nil_of_right_ne_nil _ (List.cons_ne_nil _ _)

/-- The reader takes a written number up to its last byte. -/
theorem readFloat_shortestText {rest : Bytes}
    (hrest : ∀ b ∈ rest.head?, Json.isNumberByte b = false) :
    ∃ y, Json.readFloat none (x.shortestText ++ rest) = some (y, rest) := by
  obtain ⟨negative, n, htext, -, hsome⟩ := exists_shortestText hx
  obtain ⟨y, hy⟩ := Option.isSome_iff_exists.mp hsome
  rw [htext, List.append_assoc]
  exact Json.readFloat_numeral n hy negative hrest

end Finite

end Binary64
end TickRelay
