import TickRelay.Bytes
import Mathlib.Data.List.Induction
import Mathlib.Tactic.IntervalCases
import Mathlib.Tactic.Ring

/-!
# Written numbers

`Bytes.number` gives back the number that `Bytes.decimal` writes, also with
zeros in front, and digits denote a number below the power of ten of their
length. A number is written with as many digits as it needs
(`pow_length_decimal_le`), or with as many as there are places
(`length_paddedDecimal`).
-/

namespace TickRelay
namespace Bytes

theorem byte_digitChar {d : Nat} (hd : d < 10) :
    UInt8.ofNat (Nat.digitChar d).toNat = digit d := by
  interval_cases d <;> rfl

theorem decimal_of_lt {n : Nat} (hn : n < 10) : decimal n = [digit n] := by
  simp [decimal, Nat.toDigits_of_lt_base hn, byte_digitChar hn]

theorem decimal_of_ge {n : Nat} (hn : 10 ≤ n) :
    decimal n = decimal (n / 10) ++ [digit (n % 10)] := by
  have hdigits := Nat.toDigits_eq_if (b := 10) (n := n) (by omega)
  rw [if_neg (by omega)] at hdigits
  simp [decimal, hdigits, byte_digitChar (Nat.mod_lt n (by omega))]

theorem digitValue_digit {d : Nat} (hd : d < 10) :
    digitValue (digit d) = d := by
  interval_cases d <;> rfl

theorem isDigit_digit {d : Nat} (hd : d < 10) : isDigit (digit d) = true := by
  interval_cases d <;> rfl

theorem number_concat (ds : Bytes) (b : UInt8) :
    number (ds ++ [b]) = 10 * number ds + digitValue b := by
  simp [number]

theorem number_decimal (n : Nat) : number (decimal n) = n := by
  induction n using Nat.strongRecOn with
  | ind n ih =>
      by_cases hn : n < 10
      · have hone : number [digit n] = 10 * 0 + digitValue (digit n) := rfl
        rw [decimal_of_lt hn, hone, digitValue_digit hn]
        omega
      · have hlast := digitValue_digit (Nat.mod_lt n (by omega : 0 < 10))
        rw [decimal_of_ge (by omega), number_concat,
          ih (n / 10) (by omega), hlast]
        omega

theorem isDigit_of_mem_decimal {n : Nat} {b : UInt8} (hb : b ∈ decimal n) :
    isDigit b = true := by
  induction n using Nat.strongRecOn with
  | ind n ih =>
      by_cases hn : n < 10
      · rw [decimal_of_lt hn, List.mem_singleton] at hb
        exact hb ▸ isDigit_digit hn
      · rw [decimal_of_ge (by omega), List.mem_append,
          List.mem_singleton] at hb
        rcases hb with hb | rfl
        · exact ih (n / 10) (by omega) hb
        · exact isDigit_digit (Nat.mod_lt n (by omega))

theorem decimal_ne_nil (n : Nat) : decimal n ≠ [] := by
  by_cases hn : n < 10
  · simp [decimal_of_lt hn]
  · simp [decimal_of_ge (by omega : 10 ≤ n)]

/-- Zeros in front do not count. -/
theorem number_zeros (k : Nat) (ds : Bytes) :
    number (List.replicate k 48 ++ ds) = number ds := by
  induction k with
  | zero => rfl
  | succ k ih => exact ih

theorem number_paddedDecimal (width n : Nat) :
    number (paddedDecimal width n) = n :=
  (number_zeros _ _).trans (number_decimal n)

theorem paddedDecimal_ne_nil (width n : Nat) : paddedDecimal width n ≠ [] := by
  simp [paddedDecimal, decimal_ne_nil]

theorem isDigit_of_mem_paddedDecimal {width n : Nat} {b : UInt8}
    (hb : b ∈ paddedDecimal width n) : isDigit b = true := by
  rcases List.mem_append.mp hb with hb | hb
  · rw [List.eq_of_mem_replicate hb]
    rfl
  · exact isDigit_of_mem_decimal hb

theorem digitValue_le {b : UInt8} (hb : isDigit b = true) :
    digitValue b ≤ 9 := by
  simp only [isDigit, Bool.and_eq_true, decide_eq_true_eq,
    UInt8.le_iff_toNat_le] at hb
  have hnine : (57 : UInt8).toNat = 57 := rfl
  unfold digitValue
  omega

theorem number_lt {ds : Bytes} (hds : ∀ b ∈ ds, isDigit b = true) :
    number ds < Nat.pow 10 ds.length := by
  induction ds using List.reverseRecOn with
  | nil => decide
  | append_singleton ds b ih =>
      have hinit := ih fun c hc => hds c (List.mem_append_left _ hc)
      have hlast := digitValue_le
        (hds b (List.mem_append_right _ (List.mem_singleton_self b)))
      have hpow :
          Nat.pow 10 (ds ++ [b]).length = Nat.pow 10 ds.length * 10 := by
        rw [List.length_append]
        rfl
      rw [number_concat, hpow]
      omega

/-- The first digit of a number is no zero. -/
theorem head_decimal {n : Nat} (hn : n ≠ 0) :
    ∃ b t, decimal n = b :: t ∧ b ≠ 48 := by
  induction n using Nat.strongRecOn with
  | ind n ih =>
      by_cases hsmall : n < 10
      · refine ⟨digit n, [], decimal_of_lt hsmall, ?_⟩
        interval_cases n <;> simp_all [digit]
      · obtain ⟨b, t, hfront, hb⟩ := ih (n / 10) (by omega) (by omega)
        exact ⟨b, t ++ [digit (n % 10)],
          by rw [decimal_of_ge (by omega), hfront]; rfl, hb⟩

theorem lt_pow_length_decimal (n : Nat) : n < 10 ^ (decimal n).length := by
  have hlt := number_lt fun b (hb : b ∈ decimal n) => isDigit_of_mem_decimal hb
  rwa [number_decimal] at hlt

theorem pow_length_decimal_le {n : Nat} (hn : n ≠ 0) :
    10 ^ ((decimal n).length - 1) ≤ n := by
  induction n using Nat.strongRecOn with
  | ind n ih =>
      by_cases hsmall : n < 10
      · rw [decimal_of_lt hsmall]
        exact Nat.pos_of_ne_zero hn
      · have hfront := ih (n / 10) (by omega) (by omega)
        have hlength := List.length_pos_iff.mpr (decimal_ne_nil (n / 10))
        obtain ⟨k, hk⟩ : ∃ k, (decimal (n / 10)).length = k + 1 :=
          ⟨_, (Nat.succ_pred (by omega)).symm⟩
        rw [hk, Nat.add_sub_cancel] at hfront
        rw [decimal_of_ge (by omega), List.length_append, hk,
          List.length_singleton, Nat.add_sub_cancel, Nat.pow_succ]
        omega

theorem number_append (ds es : Bytes) :
    number (ds ++ es) = number ds * 10 ^ es.length + number es := by
  induction es using List.reverseRecOn with
  | nil => simp [number]
  | append_singleton es b ih =>
    rw [← List.append_assoc, number_concat, ih, number_concat,
      List.length_append, List.length_singleton, Nat.pow_succ]
    ring

theorem number_singleton (b : UInt8) : number [b] = digitValue b := by
  simp [number]

theorem number_replicate (k : Nat) : number (List.replicate k 48) = 0 := by
  have hzeros := number_zeros k []
  rwa [List.append_nil] at hzeros

theorem isDigit_of_mem_replicate (k : Nat) :
    ∀ b ∈ List.replicate k 48, isDigit b = true := by
  intro b hb
  rw [List.eq_of_mem_replicate hb]
  rfl

theorem digitValue_pos {b : UInt8} (hb : isDigit b = true) (hzero : b ≠ 48) :
    1 ≤ digitValue b := by
  simp only [isDigit, Bool.and_eq_true, decide_eq_true_eq,
    UInt8.le_iff_toNat_le] at hb
  have hne : b.toNat ≠ 48 := fun heq => hzero (UInt8.toNat_inj.mp heq)
  have hlow : (48 : UInt8).toNat = 48 := rfl
  unfold digitValue
  omega

/-- One more place shows one more digit. -/
theorem paddedDecimal_succ {width : Nat} (hwidth : 0 < width) (n : Nat) :
    paddedDecimal (width + 1) n =
      paddedDecimal width (n / 10) ++ [digit (n % 10)] := by
  by_cases hn : n < 10
  · have hzero : n / 10 = 0 := Nat.div_eq_of_lt hn
    obtain ⟨k, rfl⟩ := Nat.exists_eq_succ_of_ne_zero (Nat.ne_of_gt hwidth)
    have hfill :
        List.replicate k (48 : UInt8) ++ decimal 0 =
          List.replicate (k + 1) 48 :=
      List.replicate_succ'.symm
    rw [paddedDecimal, paddedDecimal, hzero, decimal_of_lt hn,
      Nat.mod_eq_of_lt hn]
    exact congrArg (· ++ [digit n]) hfill.symm
  · rw [paddedDecimal, paddedDecimal, decimal_of_ge (Nat.le_of_not_lt hn),
      List.length_append, List.length_singleton, Nat.add_sub_add_right,
      List.append_assoc]

theorem length_paddedDecimal {width n : Nat} (hwidth : 0 < width)
    (hn : n < 10 ^ width) : (paddedDecimal width n).length = width := by
  induction width, hwidth using Nat.le_induction generalizing n with
  | base =>
      rw [paddedDecimal, decimal_of_lt (by simpa using hn)]
      rfl
  | succ width hwidth ih =>
      have hfront : n / 10 < 10 ^ width :=
        Nat.div_lt_of_lt_mul (by rwa [← Nat.pow_succ'])
      rw [paddedDecimal_succ hwidth, List.length_append, ih hfront,
        List.length_singleton]

/-- The first digits of a number are those of a quotient. -/
theorem number_take {ds : Bytes} (hds : ∀ b ∈ ds, isDigit b = true) (k : Nat) :
    number (ds.take k) = number ds / 10 ^ (ds.length - k) := by
  have hsplit := number_append (ds.take k) (ds.drop k)
  have hrest : number (ds.drop k) < 10 ^ (ds.length - k) := by
    rw [← List.length_drop]
    exact number_lt fun b hb => hds b (List.mem_of_mem_drop hb)
  rw [List.take_append_drop, List.length_drop] at hsplit
  have hpos : 0 < 10 ^ (ds.length - k) := Nat.pow_pos (by decide)
  rw [hsplit, Nat.add_comm, Nat.add_mul_div_right _ _ hpos,
    Nat.div_eq_of_lt hrest, Nat.zero_add]

end Bytes
end TickRelay
