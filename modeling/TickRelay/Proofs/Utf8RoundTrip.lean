import TickRelay.Utf8

/-!
# Reading what was written

**Algorithm.** `scalar?` tells the length of a code point by its first byte,
and refuses overlong forms and surrogates by the second one. `scalar?_one` to
`scalar?_four` are its four forms. The bytes that a character is written with
are of one of them, and give its number back.

**Results.** `scalars_encode`: the characters of a written text are those that
were written. `run_of_scalar?`: what is read as a code point also passes the
machine that takes byte after byte.
-/

namespace TickRelay
namespace Utf8

section Forms

variable {a b c d : UInt8} {s : Bytes}

theorem isTail_iff : isTail b = true ↔ 128 ≤ b.toNat ∧ b.toNat ≤ 191 := by
  simp only [isTail, Bool.and_eq_true, decide_eq_true_eq,
    UInt8.le_iff_toNat_le]
  rfl

/-- Two first bytes narrow the range of the second one, one of them from below
and one from above. -/
theorem second_in_range {x y low high : UInt8} (hb : isTail b = true)
    (hlow : a = x → low ≤ b) (hhigh : a = y → b ≤ high) :
    (decide ((if a == x then low else 0x80) ≤ b) &&
        decide (b ≤ (if a == y then high else 0xBF))) =
      true := by
  have hb' := isTail_iff.mp hb
  simp only [beq_iff_eq, Bool.and_eq_true, decide_eq_true_eq]
  constructor
  · split
    · rename_i ha
      exact hlow ha
    · exact UInt8.le_iff_toNat_le.mpr hb'.1
  · split
    · rename_i ha
      exact hhigh ha
    · exact UInt8.le_iff_toNat_le.mpr hb'.2

theorem in_range {low high : UInt8} (h : low ≤ a ∧ a ≤ high) :
    (decide (low ≤ a) && decide (a ≤ high)) = true := by
  rwa [Bool.and_eq_true, decide_eq_true_eq, decide_eq_true_eq]

theorem not_in_range {low high : UInt8} (h : high < a) :
    ¬ (decide (low ≤ a) && decide (a ≤ high)) = true := by
  rw [Bool.and_eq_true, decide_eq_true_eq, decide_eq_true_eq]
  exact fun hin => UInt8.not_le.mpr h hin.2

theorem scalar?_one (ha : a ≤ 0x7F) :
    scalar? (a :: s) = some (Char.ofNat a.toNat, 1) := by
  simp [scalar?, ha]

theorem scalar?_two (ha : 0xC2 ≤ a ∧ a ≤ 0xDF) (hb : isTail b = true) :
    scalar? (a :: b :: s) =
      some (Char.ofNat (a.toNat % 32 * 64 + tailBits b), 2) := by
  have hone : 0x7F < a := UInt8.lt_of_lt_of_le (by decide) ha.1
  rw [scalar?, if_neg (UInt8.not_le.mpr hone), if_pos (in_range ha)]
  exact if_pos hb

theorem scalar?_three (ha : 0xE0 ≤ a ∧ a ≤ 0xEF) (hb : isTail b = true)
    (hlow : a = 0xE0 → 0xA0 ≤ b) (hhigh : a = 0xED → b ≤ 0x9F)
    (hc : isTail c = true) :
    scalar? (a :: b :: c :: s) =
      some (Char.ofNat (a.toNat % 16 * 4096 + tailBits b * 64 + tailBits c),
        3) := by
  have hone : 0x7F < a := UInt8.lt_of_lt_of_le (by decide) ha.1
  have htwo : 0xDF < a := UInt8.lt_of_lt_of_le (by decide) ha.1
  rw [scalar?, if_neg (UInt8.not_le.mpr hone), if_neg (not_in_range htwo),
    if_pos (in_range ha)]
  refine if_pos ?_
  rw [second_in_range hb hlow hhigh, hc]
  rfl

theorem scalar?_four (ha : 0xF0 ≤ a ∧ a ≤ 0xF4) (hb : isTail b = true)
    (hlow : a = 0xF0 → 0x90 ≤ b) (hhigh : a = 0xF4 → b ≤ 0x8F)
    (hc : isTail c = true) (hd : isTail d = true) :
    scalar? (a :: b :: c :: d :: s) =
      some (Char.ofNat (a.toNat % 8 * 262144 + tailBits b * 4096 + tailBits c *
        64 + tailBits d), 4) := by
  have hone : 0x7F < a := UInt8.lt_of_lt_of_le (by decide) ha.1
  have htwo : 0xDF < a := UInt8.lt_of_lt_of_le (by decide) ha.1
  have hthree : 0xEF < a := UInt8.lt_of_lt_of_le (by decide) ha.1
  rw [scalar?, if_neg (UInt8.not_le.mpr hone), if_neg (not_in_range htwo),
    if_neg (not_in_range hthree), if_pos (in_range ha)]
  refine if_pos ?_
  rw [second_in_range hb hlow hhigh, hc, hd]
  rfl

end Forms

section Written

theorem toNat_ofNat {n : Nat} (h : n.isValidChar) :
    (Char.ofNat n).toNat = n := by
  rw [Char.ofNat, dif_pos h]
  rfl

theorem toNat_byte {n : Nat} (h : n < 256) : (UInt8.ofNat n).toNat = n := by
  rw [UInt8.toNat_ofNat', Nat.mod_eq_of_lt h]

theorem toNat_tail (n : Nat) :
    (UInt8.ofNat (n % 64 + 128)).toNat = n % 64 + 128 :=
  toNat_byte (by omega)

theorem isTail_tail (n : Nat) :
    isTail (UInt8.ofNat (n % 64 + 128)) = true := by
  rw [isTail_iff, toNat_tail]
  omega

theorem tailBits_tail (n : Nat) :
    tailBits (UInt8.ofNat (n % 64 + 128)) = n % 64 := by
  rw [tailBits, toNat_tail]
  omega

/-- Bounds of a byte, read off its number. -/
theorem byte_in_range {n : Nat} {low high : UInt8} (hn : n < 256)
    (hlow : low.toNat ≤ n) (hhigh : n ≤ high.toNat) :
    low ≤ UInt8.ofNat n ∧ UInt8.ofNat n ≤ high := by
  rw [UInt8.le_iff_toNat_le, UInt8.le_iff_toNat_le, toNat_byte hn]
  exact ⟨hlow, hhigh⟩

theorem eq_of_byte_eq {n : Nat} {b : UInt8} (hn : n < 256)
    (h : UInt8.ofNat n = b) : n = b.toNat := by
  rw [← h, toNat_byte hn]

/-- A written character is read back, whatever follows. -/
theorem scalar?_encodeChar (c : Char) (rest : Bytes) :
    scalar? (String.utf8EncodeChar c ++ rest) =
      some (c, (String.utf8EncodeChar c).length) := by
  have hvalid : c.val.toNat < 0xD800 ∨
      (0xDFFF < c.val.toNat ∧ c.val.toNat < 0x110000) := c.valid
  have hchar : Char.ofNat c.val.toNat = c := Char.ofNat_toNat c
  unfold String.utf8EncodeChar
  generalize c.val.toNat = v at hvalid hchar
  dsimp only
  split
  · rename_i hone
    have hv : v < 256 := by omega
    have ha : UInt8.ofNat v ≤ 0x7F := by
      rw [UInt8.le_iff_toNat_le, toNat_byte hv]
      exact hone
    rw [List.cons_append, scalar?_one ha, toNat_byte hv, hchar]
    rfl
  · split
    · have ha : v / 64 % 32 + 192 < 256 := by omega
      have hlow : 194 ≤ v / 64 % 32 + 192 := by omega
      have hhigh : v / 64 % 32 + 192 ≤ 223 := by omega
      have hv : (v / 64 % 32 + 192) % 32 * 64 + v % 64 = v := by omega
      rw [List.cons_append, List.cons_append,
        scalar?_two (byte_in_range ha hlow hhigh) (isTail_tail v),
        toNat_byte ha, tailBits_tail, hv, hchar]
      rfl
    · split
      · have ha : v / 4096 % 16 + 224 < 256 := by omega
        have hlow : 224 ≤ v / 4096 % 16 + 224 := by omega
        have hhigh : v / 4096 % 16 + 224 ≤ 239 := by omega
        have hv :
            (v / 4096 % 16 + 224) % 16 * 4096 + v / 64 % 64 * 64 + v % 64 =
              v := by omega
        rw [List.cons_append, List.cons_append, List.cons_append,
          scalar?_three (byte_in_range ha hlow hhigh) (isTail_tail _) ?_ ?_
            (isTail_tail v), toNat_byte ha, tailBits_tail,
          tailBits_tail, hv, hchar]
        · rfl
        · intro he
          have hfirst : v / 4096 % 16 + 224 = 224 := eq_of_byte_eq ha he
          rw [UInt8.le_iff_toNat_le, toNat_tail]
          show 160 ≤ v / 64 % 64 + 128
          omega
        · intro he
          have hfirst : v / 4096 % 16 + 224 = 237 := eq_of_byte_eq ha he
          rw [UInt8.le_iff_toNat_le, toNat_tail]
          show v / 64 % 64 + 128 ≤ 159
          omega
      · have ha : v / 262144 % 8 + 240 < 256 := by omega
        have hlow : 240 ≤ v / 262144 % 8 + 240 := by omega
        have hhigh : v / 262144 % 8 + 240 ≤ 244 := by omega
        have hv :
            (v / 262144 % 8 + 240) % 8 * 262144 + v / 4096 % 64 * 4096 +
              v / 64 % 64 * 64 + v % 64 = v := by omega
        rw [List.cons_append, List.cons_append, List.cons_append,
          List.cons_append, scalar?_four (byte_in_range ha hlow hhigh)
            (isTail_tail _) ?_ ?_ (isTail_tail _) (isTail_tail v),
          toNat_byte ha, tailBits_tail, tailBits_tail, tailBits_tail, hv, hchar]
        · rfl
        · intro he
          have hfirst : v / 262144 % 8 + 240 = 240 := eq_of_byte_eq ha he
          rw [UInt8.le_iff_toNat_le, toNat_tail]
          show 144 ≤ v / 4096 % 64 + 128
          omega
        · intro he
          have hfirst : v / 262144 % 8 + 240 = 244 := eq_of_byte_eq ha he
          rw [UInt8.le_iff_toNat_le, toNat_tail]
          show v / 4096 % 64 + 128 ≤ 143
          omega

/-- The bytes of a code point that was read are passed over. -/
theorem runesFrom_append (skipped rest : Bytes) :
    runesFrom skipped.length (skipped ++ rest) = runesFrom 0 rest := by
  induction skipped with
  | nil => rfl
  | cons a skipped ih => exact ih

theorem runes_encodeChar (c : Char) (rest : Bytes) :
    runes (String.utf8EncodeChar c ++ rest) = some c :: runes rest := by
  have hscalar := scalar?_encodeChar c rest
  cases hc : String.utf8EncodeChar c with
  | nil => exact absurd hc String.utf8EncodeChar_ne_nil
  | cons a tail =>
      rw [hc] at hscalar
      rw [List.cons_append] at hscalar ⊢
      rw [runes, runesFrom, hscalar]
      show some c :: runesFrom tail.length (tail ++ rest) = _
      rw [runesFrom_append]
      rfl

theorem runes_encode (cs : List Char) : runes (encode cs) = cs.map some := by
  induction cs with
  | nil => rfl
  | cons c cs ih =>
      show runes (String.utf8EncodeChar c ++ encode cs) = some c :: cs.map some
      rw [runes_encodeChar, ih]

/-- The characters of a written text are those that were written. -/
theorem scalars_encode (cs : List Char) : scalars (encode cs) = cs := by
  rw [scalars, runes_encode, List.map_map]
  exact List.map_id cs

end Written

/-- A text may be checked piece by piece. -/
theorem State.run_append (q : State) (s t : Bytes) :
    State.run q (s ++ t) = (State.run q s).bind fun r => State.run r t :=
  List.foldlM_append

section Valid

variable {a b c d : UInt8} {s t : Bytes}

theorem tail_bounds (h : isTail b = true) : 0x80 ≤ b ∧ b ≤ 0xBF := by
  simpa [isTail] using h

theorem run_one (ha : a ≤ 0x7F) : State.run .start [a] = some .start := by
  simp [State.run, State.step, ha]

theorem run_two (ha : 0xC2 ≤ a ∧ a ≤ 0xDF) (hb : isTail b = true) :
    State.run .start [a, b] = some .start := by
  have hone : ¬a ≤ 0x7F :=
    UInt8.not_le.mpr (UInt8.lt_of_lt_of_le (by decide) ha.1)
  simp [State.run, State.step, hone, ha, hb]

theorem run_three (ha : 0xE0 ≤ a ∧ a ≤ 0xEF) (hb : isTail b = true)
    (hlow : a = 0xE0 → 0xA0 ≤ b) (hhigh : a = 0xED → b ≤ 0x9F)
    (hc : isTail c = true) : State.run .start [a, b, c] = some .start := by
  have hone : ¬a ≤ 0x7F :=
    UInt8.not_le.mpr (UInt8.lt_of_lt_of_le (by decide) ha.1)
  have htwo : ¬a ≤ 0xDF :=
    UInt8.not_le.mpr (UInt8.lt_of_lt_of_le (by decide) ha.1)
  have htail := tail_bounds hb
  by_cases hE0 : a = 0xE0
  · subst hE0
    simp [State.run, State.step, hlow, htail, hc]
  by_cases hED : a = 0xED
  · subst hED
    simp [State.run, State.step, hhigh, htail, hc]
  have hE1 : 0xE1 ≤ a := by
    simp only [UInt8.le_iff_toNat_le, ← UInt8.toNat_inj,
      UInt8.reduceToNat] at *
    omega
  simp [State.run, State.step, hone, htwo, hE0, hED, hE1, ha.2, hb, hc]

theorem run_four (ha : 0xF0 ≤ a ∧ a ≤ 0xF4) (hb : isTail b = true)
    (hlow : a = 0xF0 → 0x90 ≤ b) (hhigh : a = 0xF4 → b ≤ 0x8F)
    (hc : isTail c = true) (hd : isTail d = true) :
    State.run .start [a, b, c, d] = some .start := by
  have hone : ¬a ≤ 0x7F :=
    UInt8.not_le.mpr (UInt8.lt_of_lt_of_le (by decide) ha.1)
  have htwo : ¬a ≤ 0xDF :=
    UInt8.not_le.mpr (UInt8.lt_of_lt_of_le (by decide) ha.1)
  have hthree : ¬a ≤ 0xEF :=
    UInt8.not_le.mpr (UInt8.lt_of_lt_of_le (by decide) ha.1)
  have htail := tail_bounds hb
  by_cases hF0 : a = 0xF0
  · subst hF0
    simp [State.run, State.step, hlow, htail, hc, hd]
  by_cases hF4 : a = 0xF4
  · subst hF4
    simp [State.run, State.step, hhigh, htail, hc, hd]
  have hE0 : a ≠ 0xE0 := by
    rintro rfl
    exact absurd ha.1 (by decide)
  have hED : a ≠ 0xED := by
    rintro rfl
    exact absurd ha.1 (by decide)
  have hF1 : 0xF1 ≤ a ∧ a ≤ 0xF3 := by
    simp only [UInt8.le_iff_toNat_le, ← UInt8.toNat_inj,
      UInt8.reduceToNat] at *
    omega
  simp [State.run, State.step, hone, htwo, hthree, hE0, hED, hF0,
    hF4, hF1, hb, hc, hd]

theorem bounds_of_second {x y low high : UInt8} (hlow : 0x80 ≤ low)
    (hhigh : high ≤ 0xBF)
    (h : (decide ((if a == x then low else 0x80) ≤ b) &&
      decide (b ≤ (if a == y then high else 0xBF))) = true) :
    isTail b = true ∧ (a = x → low ≤ b) ∧ (a = y → b ≤ high) := by
  simp only [beq_iff_eq, Bool.and_eq_true, decide_eq_true_eq] at h
  refine ⟨?_, ?_, ?_⟩
  · rw [isTail, Bool.and_eq_true, decide_eq_true_eq, decide_eq_true_eq]
    constructor
    · refine UInt8.le_trans ?_ h.1
      split
      · exact hlow
      · exact UInt8.le_refl _
    · refine UInt8.le_trans h.2 ?_
      split
      · exact hhigh
      · exact UInt8.le_refl _
  · intro ha
    simpa [ha] using h.1
  · intro ha
    simpa [ha] using h.2

/-- What is taken off the head of a text as one code point passes the
machine. -/
theorem run_of_scalar? {k : Char} {width : Nat}
    (h : scalar? s = some (k, width)) :
    State.run .start (s.take width) = some .start := by
  unfold scalar? at h
  split at h
  · cases h
  · split at h
    · rename_i ha
      cases h
      exact run_one ha
    · split at h
      · rename_i ha
        rw [Bool.and_eq_true, decide_eq_true_eq, decide_eq_true_eq] at ha
        split at h
        · obtain ⟨hb, heq⟩ := Option.ite_none_right_eq_some.mp h
          cases heq
          exact run_two ha hb
        · cases h
      · split at h
        · rename_i ha
          rw [Bool.and_eq_true, decide_eq_true_eq, decide_eq_true_eq] at ha
          split at h
          · obtain ⟨hbytes, heq⟩ := Option.ite_none_right_eq_some.mp h
            cases heq
            rw [Bool.and_eq_true] at hbytes
            obtain ⟨hb, hlow, hhigh⟩ :=
              bounds_of_second (by decide) (by decide) hbytes.1
            exact run_three ha hb hlow hhigh hbytes.2
          · cases h
        · obtain ⟨ha, h⟩ := Option.ite_none_right_eq_some.mp h
          rw [Bool.and_eq_true, decide_eq_true_eq, decide_eq_true_eq] at ha
          split at h
          · obtain ⟨hbytes, heq⟩ := Option.ite_none_right_eq_some.mp h
            cases heq
            rw [Bool.and_eq_true, Bool.and_eq_true] at hbytes
            obtain ⟨hb, hlow, hhigh⟩ :=
              bounds_of_second (by decide) (by decide) hbytes.1.1
            exact run_four ha hb hlow hhigh hbytes.1.2 hbytes.2
          · cases h

theorem isValid_iff : isValid s = true ↔ State.run .start s = some .start :=
  beq_iff_eq

theorem isValid_append (hs : isValid s = true) (ht : isValid t = true) :
    isValid (s ++ t) = true := by
  rw [isValid_iff] at hs ht ⊢
  rw [State.run_append, hs, Option.bind_some, ht]

theorem isValid_encodeChar (k : Char) :
    isValid (String.utf8EncodeChar k) = true := by
  have htaken := run_of_scalar? (scalar?_encodeChar k [])
  rwa [List.append_nil, List.take_length, ← isValid_iff] at htaken

theorem isValid_ascii (h : ∀ b ∈ s, b ≤ 0x7F) : isValid s = true := by
  induction s with
  | nil => rfl
  | cons b s ih =>
    have hb := isValid_iff.mpr (run_one (h b List.mem_cons_self))
    exact isValid_append hb (ih fun c hc => h c (List.mem_cons_of_mem b hc))

theorem isValid_flatMap {α : Type} {f : α → Bytes} {xs : List α}
    (h : ∀ x ∈ xs, isValid (f x) = true) : isValid (xs.flatMap f) = true := by
  induction xs with
  | nil => rfl
  | cons x xs ih =>
    exact isValid_append (h x List.mem_cons_self)
      (ih fun y hy => h y (List.mem_cons_of_mem x hy))

end Valid

end Utf8
end TickRelay
