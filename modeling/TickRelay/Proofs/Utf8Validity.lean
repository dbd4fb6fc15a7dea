import TickRelay.Proofs.Utf8RoundTrip

/-!
# Valid texts

**Algorithm.** In each state but the first the machine takes the bytes of one
range and goes on to one other state. So the bytes of a code point can be read
off the states it passes, and they are those with which its character is
written.

**Results.** `exists_encode`: a valid text is what some characters are written
with. `repair_of_isValid`: there is nothing to repair in it.
-/

namespace TickRelay
namespace Utf8

variable {a : UInt8} {s t : Bytes}

theorem State.run_cons (q : State) (b : UInt8) (s : Bytes) :
    State.run q (b :: s) = (q.step b).bind fun r => State.run r s :=
  List.foldlM_cons

/-- A state that takes the bytes of one range is left by a byte of that
range. -/
theorem State.run_owed (low high : UInt8) {q next : State} (hq : q ≠ .start)
    (hstep : ∀ b, q.step b = if low ≤ b && b ≤ high then some next else none)
    (h : State.run q s = some .start) :
    ∃ b t, s = b :: t ∧ (low.toNat ≤ b.toNat ∧ b.toNat ≤ high.toNat) ∧
      State.run next t = some .start := by
  cases s with
  | nil => exact absurd (Option.some.inj h) hq
  | cons b t =>
    rw [run_cons, hstep] at h
    split at h
    · rename_i hb
      rw [Bool.and_eq_true, decide_eq_true_eq, decide_eq_true_eq,
        UInt8.le_iff_toNat_le, UInt8.le_iff_toNat_le] at hb
      exact ⟨b, t, rfl, hb, h⟩
    · cases h

section Forms

/-- A byte that is given by its number. -/
theorem ofNat_eq {n : Nat} {b : UInt8} (h : n = b.toNat) :
    UInt8.ofNat n = b := by
  rw [h, UInt8.ofNat_toNat]

/-- The written form of a number's character, by the number. -/
theorem encodeChar_ofNat {n : Nat} (h : n.isValidChar) :
    String.utf8EncodeChar (Char.ofNat n) = if n ≤ 0x7F then [UInt8.ofNat n]
      else if n ≤ 0x7FF then
        [UInt8.ofNat (n / 64 % 32 + 192), UInt8.ofNat (n % 64 + 128)]
      else if n ≤ 0xFFFF then
        [UInt8.ofNat (n / 4096 % 16 + 224), UInt8.ofNat (n / 64 % 64 + 128),
          UInt8.ofNat (n % 64 + 128)]
      else [UInt8.ofNat (n / 262144 % 8 + 240),
        UInt8.ofNat (n / 4096 % 64 + 128), UInt8.ofNat (n / 64 % 64 + 128),
        UInt8.ofNat (n % 64 + 128)] := by
  have hn : (Char.ofNat n).val.toNat = n := toNat_ofNat h
  unfold String.utf8EncodeChar
  rw [hn]

theorem exists_one (ha : a.toNat ≤ 0x7F) :
    ∃ k, String.utf8EncodeChar k = [a] := by
  refine ⟨Char.ofNat a.toNat, ?_⟩
  rw [encodeChar_ofNat (.inl (by omega)), if_pos ha, UInt8.ofNat_toNat]

variable {b c d : UInt8}

theorem exists_two (ha : 0xC2 ≤ a.toNat ∧ a.toNat ≤ 0xDF)
    (hb : 0x80 ≤ b.toNat ∧ b.toNat ≤ 0xBF) :
    ∃ k, String.utf8EncodeChar k = [a, b] := by
  refine ⟨Char.ofNat (a.toNat % 32 * 64 + b.toNat % 64), ?_⟩
  rw [encodeChar_ofNat (.inl (by omega)), if_neg (by omega), if_pos (by omega),
    ofNat_eq (b := a) (by omega), ofNat_eq (b := b) (by omega)]

variable (hc : 0x80 ≤ c.toNat ∧ c.toNat ≤ 0xBF)
include hc

/-- Overlong forms and surrogates are excluded by the range of the second
byte. -/
theorem exists_three (ha : 0xE0 ≤ a.toNat ∧ a.toNat ≤ 0xEF)
    (hb : 0x80 ≤ b.toNat ∧ b.toNat ≤ 0xBF)
    (hlow : a.toNat = 0xE0 → 0xA0 ≤ b.toNat)
    (hhigh : a.toNat = 0xED → b.toNat ≤ 0x9F) :
    ∃ k, String.utf8EncodeChar k = [a, b, c] := by
  refine ⟨Char.ofNat (a.toNat % 16 * 4096 + b.toNat % 64 * 64 + c.toNat % 64),
    ?_⟩
  have hvalid :
      (a.toNat % 16 * 4096 + b.toNat % 64 * 64 +
        c.toNat % 64).isValidChar := by
    unfold Nat.isValidChar
    omega
  rw [encodeChar_ofNat hvalid, if_neg (by omega), if_neg (by omega),
    if_pos (by omega), ofNat_eq (b := a) (by omega),
    ofNat_eq (b := b) (by omega), ofNat_eq (b := c) (by omega)]

/-- Overlong forms and numbers that are too large are excluded in the same
way. -/
theorem exists_four (ha : 0xF0 ≤ a.toNat ∧ a.toNat ≤ 0xF4)
    (hb : 0x80 ≤ b.toNat ∧ b.toNat ≤ 0xBF)
    (hlow : a.toNat = 0xF0 → 0x90 ≤ b.toNat)
    (hhigh : a.toNat = 0xF4 → b.toNat ≤ 0x8F)
    (hd : 0x80 ≤ d.toNat ∧ d.toNat ≤ 0xBF) :
    ∃ k, String.utf8EncodeChar k = [a, b, c, d] := by
  refine ⟨Char.ofNat (a.toNat % 8 * 262144 + b.toNat % 64 * 4096 + c.toNat %
    64 * 64 + d.toNat % 64), ?_⟩
  have hvalid :
      (a.toNat % 8 * 262144 + b.toNat % 64 * 4096 + c.toNat % 64 * 64 +
        d.toNat % 64).isValidChar := by
    unfold Nat.isValidChar
    omega
  rw [encodeChar_ofNat hvalid, if_neg (by omega), if_neg (by omega),
    if_neg (by omega), ofNat_eq (b := a) (by omega),
    ofNat_eq (b := b) (by omega), ofNat_eq (b := c) (by omega),
    ofNat_eq (b := d) (by omega)]

end Forms

section Machine

/-- One tail byte is owed. -/
theorem State.run_tail1 (h : State.run .tail1 s = some .start) :
    ∃ b t, s = b :: t ∧ (0x80 ≤ b.toNat ∧ b.toNat ≤ 0xBF) ∧
      State.run .start t = some .start :=
  State.run_owed 0x80 0xBF State.noConfusion (fun _ => rfl) h

/-- Two tail bytes are owed. -/
theorem State.run_tail2 (h : State.run .tail2 s = some .start) :
    ∃ b c t, s = b :: c :: t ∧ (0x80 ≤ b.toNat ∧ b.toNat ≤ 0xBF) ∧
      (0x80 ≤ c.toNat ∧ c.toNat ≤ 0xBF) ∧
      State.run .start t = some .start := by
  obtain ⟨b, t, rfl, hb, h⟩ :=
    State.run_owed 0x80 0xBF State.noConfusion (fun _ => rfl) h
  obtain ⟨c, t, rfl, hc, h⟩ := State.run_tail1 h
  exact ⟨b, c, t, rfl, hb, hc, h⟩

/-- A code point of three bytes, of which the second is in a range that depends
on the first. -/
theorem exists_encodeChar_three {q : State} (low high : UInt8)
    (hq : q ≠ .start)
    (hstep : ∀ b, q.step b = if low ≤ b && b ≤ high then some .tail1 else none)
    (hrange : 0x80 ≤ low.toNat ∧ high.toNat ≤ 0xBF)
    (ha : 0xE0 ≤ a.toNat ∧ a.toNat ≤ 0xEF)
    (hlow : a.toNat = 0xE0 → 0xA0 ≤ low.toNat)
    (hhigh : a.toNat = 0xED → high.toNat ≤ 0x9F)
    (h : State.run q s = some .start) :
    ∃ k t, a :: s = String.utf8EncodeChar k ++ t ∧
      State.run .start t = some .start := by
  obtain ⟨b, t, rfl, hb, h⟩ := State.run_owed low high hq hstep h
  obtain ⟨c, t, rfl, hc, h⟩ := State.run_tail1 h
  obtain ⟨k, hk⟩ :=
    exists_three hc ha (b := b) (by omega) (by omega) (by omega)
  exact ⟨k, t, by rw [hk]; rfl, h⟩

/-- And one of four bytes. -/
theorem exists_encodeChar_four {q : State} (low high : UInt8) (hq : q ≠ .start)
    (hstep : ∀ b, q.step b = if low ≤ b && b ≤ high then some .tail2 else none)
    (hrange : 0x80 ≤ low.toNat ∧ high.toNat ≤ 0xBF)
    (ha : 0xF0 ≤ a.toNat ∧ a.toNat ≤ 0xF4)
    (hlow : a.toNat = 0xF0 → 0x90 ≤ low.toNat)
    (hhigh : a.toNat = 0xF4 → high.toNat ≤ 0x8F)
    (h : State.run q s = some .start) :
    ∃ k t, a :: s = String.utf8EncodeChar k ++ t ∧
      State.run .start t = some .start := by
  obtain ⟨b, t, rfl, hb, h⟩ := State.run_owed low high hq hstep h
  obtain ⟨c, d, t, rfl, hc, hd, h⟩ := State.run_tail2 h
  obtain ⟨k, hk⟩ :=
    exists_four hc ha (b := b) (by omega) (by omega) (by omega) hd
  exact ⟨k, t, by rw [hk]; rfl, h⟩

/-- The machine goes through the bytes of one character after the other. -/
theorem exists_encodeChar (h : State.run .start (a :: s) = some .start) :
    ∃ k t, a :: s = String.utf8EncodeChar k ++ t ∧
      State.run .start t = some .start := by
  rw [State.run_cons, State.step] at h
  simp only [UInt8.le_iff_toNat_le, ← UInt8.toNat_inj, beq_iff_eq,
    Bool.and_eq_true, decide_eq_true_eq, UInt8.reduceToNat] at h
  split at h
  · rename_i ha
    obtain ⟨k, hk⟩ := exists_one ha
    exact ⟨k, s, by rw [hk]; rfl, h⟩
  split at h
  · rename_i ha
    obtain ⟨b, t, rfl, hb, h⟩ := State.run_tail1 h
    obtain ⟨k, hk⟩ := exists_two ha hb
    exact ⟨k, t, by rw [hk]; rfl, h⟩
  split at h
  · exact exists_encodeChar_three 0xA0 0xBF State.noConfusion (fun _ => rfl)
      (by decide) (by omega) (fun _ => by decide) (by omega) h
  split at h
  · exact exists_encodeChar_three 0x80 0x9F State.noConfusion (fun _ => rfl)
      (by decide) (by omega) (by omega) (fun _ => by decide) h
  split at h
  · exact exists_encodeChar_three 0x80 0xBF State.noConfusion (fun _ => rfl)
      (by decide) (by omega) (by omega) (by omega) h
  split at h
  · exact exists_encodeChar_four 0x90 0xBF State.noConfusion (fun _ => rfl)
      (by decide) (by omega) (fun _ => by decide) (by omega) h
  split at h
  · exact exists_encodeChar_four 0x80 0x8F State.noConfusion (fun _ => rfl)
      (by decide) (by omega) (by omega) (fun _ => by decide) h
  split at h
  · exact exists_encodeChar_four 0x80 0xBF State.noConfusion (fun _ => rfl)
      (by decide) (by omega) (by omega) (by omega) h
  · cases h

/-- A valid text is what some characters are written with. -/
theorem exists_encode (h : isValid s = true) : ∃ cs, s = encode cs := by
  rw [isValid_iff] at h
  induction hn : s.length using Nat.strongRecOn generalizing s with
  | ind n ih =>
    cases s with
    | nil => exact ⟨[], rfl⟩
    | cons a t =>
      obtain ⟨k, rest, hsplit, hrest⟩ := exists_encodeChar h
      have hpos : 0 < (String.utf8EncodeChar k).length :=
        List.length_pos_iff.mpr String.utf8EncodeChar_ne_nil
      have hlength := congrArg List.length hsplit
      rw [List.length_append] at hlength
      obtain ⟨cs, rfl⟩ := ih rest.length (by omega) hrest rfl
      exact ⟨k :: cs, hsplit⟩

theorem repair_of_isValid (h : isValid s = true) : repair s = s := by
  obtain ⟨cs, rfl⟩ := exists_encode h
  rw [repair, scalars_encode]

end Machine

end Utf8
end TickRelay
