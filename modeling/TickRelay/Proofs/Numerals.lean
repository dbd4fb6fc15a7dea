import TickRelay.Binary64.Text
import TickRelay.Json.Number
import TickRelay.Proofs.DecimalDigits
import Mathlib.Data.List.TakeWhile

/-!
# Numerals

A numeral is a whole part without needless zeros, a fraction that may be empty
and perhaps an exponent with its sign: the shapes in which numbers are written.

**Results.** `parse?_text`: the parts of a numeral are read back.
`readFloat_numeral`: a reader of fractional numbers takes a numeral, with or
without a minus sign, up to its last byte, if the number is not too large.
`readInteger_decimal`: integers are read back.
-/

namespace TickRelay

/-- The written form of a number that is not negative. -/
structure Numeral where
  whole : Bytes
  fraction : Bytes
  /-- Whether the exponent is negative, and its digits. -/
  exponent : Option (Bool × Bytes)
  isDigit_whole : ∀ b ∈ whole, Bytes.isDigit b = true
  isDigit_fraction : ∀ b ∈ fraction, Bytes.isDigit b = true
  isDigit_exponent : ∀ e ∈ exponent, e.2 ≠ [] ∧
    ∀ b ∈ e.2, Bytes.isDigit b = true
  whole_ne_nil : whole ≠ []
  leading : whole = [48] ∨ whole.head? ≠ some 48

namespace Numeral

/-- A fraction after its point. -/
def fractionText : Bytes → Bytes
  | [] => []
  | b :: s => 46 :: b :: s

/-- An exponent with its letter and its sign. -/
def exponentText : Option (Bool × Bytes) → Bytes
  | none => []
  | some (lowers, ds) => 101 :: (if lowers then 45 else 43) :: ds

/-- What follows the whole part. -/
def tail (n : Numeral) : Bytes :=
  fractionText n.fraction ++ exponentText n.exponent

/-- The numeral. -/
def text (n : Numeral) : Bytes := n.whole ++ n.tail

/-- The parts of a numeral with a sign. -/
def parts (n : Numeral) (negative : Bool) : DecimalText :=
  ⟨negative, n.whole, n.fraction, n.exponent.any (·.1),
    n.exponent.elim [] (·.2)⟩

theorem isDigit_nil : ∀ b ∈ ([] : Bytes), Bytes.isDigit b = true :=
  fun _ hb => absurd hb List.not_mem_nil

theorem isDigit_none :
    ∀ e ∈ (none : Option (Bool × Bytes)), e.2 ≠ [] ∧
    ∀ b ∈ e.2, Bytes.isDigit b = true :=
  fun _ he => absurd he (Option.not_mem_none _)

/-- The numeral of a natural number. -/
def ofNat (k : Nat) : Numeral where
  whole := Bytes.decimal k
  fraction := []
  exponent := none
  isDigit_whole := fun _ hb => Bytes.isDigit_of_mem_decimal hb
  isDigit_fraction := isDigit_nil
  isDigit_exponent := isDigit_none
  whole_ne_nil := Bytes.decimal_ne_nil k
  leading := by
    by_cases hk : k = 0
    · exact .inl (by rw [hk]; rfl)
    · obtain ⟨b, t, hcons, hb⟩ := Bytes.head_decimal hk
      refine .inr ?_
      rw [hcons]
      exact fun heq => hb (Option.some.inj heq)

end Numeral

section Spans

variable {α : Type} {p : α → Bool} {front rest : List α}

theorem takeWhile_span (hfront : ∀ a ∈ front, p a = true)
    (hrest : ∀ a ∈ rest.head?, p a = false) :
    (front ++ rest).takeWhile p = front := by
  rw [List.takeWhile_append_of_pos hfront]
  cases rest with
  | nil => exact List.append_nil front
  | cons a rest =>
    rw [List.takeWhile_cons_of_neg (by simp [hrest a rfl]), List.append_nil]

theorem dropWhile_span (hfront : ∀ a ∈ front, p a = true)
    (hrest : ∀ a ∈ rest.head?, p a = false) :
    (front ++ rest).dropWhile p = rest := by
  rw [List.dropWhile_append_of_pos hfront]
  cases rest with
  | nil => rfl
  | cons a rest => rw [List.dropWhile_cons_of_neg (by simp [hrest a rfl])]

end Spans

namespace Numeral

variable (n : Numeral)

theorem exists_cons : ∃ b t, n.whole = b :: t ∧ Bytes.isDigit b = true := by
  cases hwhole : n.whole with
  | nil => exact absurd hwhole n.whole_ne_nil
  | cons b t =>
    exact ⟨b, t, rfl,
      n.isDigit_whole b (by rw [hwhole]; exact List.mem_cons_self)⟩

theorem text_eq_cons : ∃ b t, n.text = b :: t ∧ Bytes.isDigit b = true := by
  obtain ⟨b, t, hwhole, hb⟩ := n.exists_cons
  exact ⟨b, t ++ n.tail, by rw [text, hwhole]; rfl, hb⟩

theorem head_exponentText (e : Option (Bool × Bytes)) :
    ∀ c ∈ (exponentText e).head?, c = 101 := by
  rintro c hc
  cases e with
  | none => cases hc
  | some e => exact (Option.some.inj hc).symm

theorem head_tail : ∀ c ∈ n.tail.head?, c = 46 ∨ c = 101 := by
  intro c hc
  unfold tail at hc
  cases hfraction : n.fraction with
  | nil =>
    rw [hfraction] at hc
    exact .inr (head_exponentText _ c hc)
  | cons b s =>
    rw [hfraction] at hc
    exact .inl (Option.some.inj hc).symm

theorem not_digit_tail : ∀ c ∈ n.tail.head?, Bytes.isDigit c = false := by
  intro c hc
  rcases n.head_tail c hc with rfl | rfl <;> rfl

theorem sign_digit {b : UInt8} {s : Bytes} (hb : Bytes.isDigit b = true) :
    DecimalText.sign (b :: s) = (false, b :: s) := by
  unfold DecimalText.sign
  split
  · rename_i heq
    cases heq
    cases hb
  · rename_i heq
    cases heq
    cases hb
  · rfl

theorem exponent?_text : DecimalText.exponent? (exponentText n.exponent) =
    some (n.exponent.any (·.1), n.exponent.elim [] (·.2)) := by
  cases hexponent : n.exponent with
  | none => rfl
  | some e =>
    obtain ⟨lowers, ds⟩ := e
    obtain ⟨hne, hds⟩ := n.isDigit_exponent (lowers, ds) hexponent
    have hform : ds ≠ [] ∧ ds.all Bytes.isDigit = true :=
      ⟨hne, List.all_eq_true.mpr hds⟩
    cases lowers <;>
      simp [exponentText, DecimalText.exponent?, DecimalText.sign, hform]

/-- The parts of a numeral are read back, and its sign. -/
theorem parse?_text (negative : Bool) :
    DecimalText.parse? (Binary64.signText negative ++ n.text) =
      some (n.parts negative) := by
  have hsign : DecimalText.sign (Binary64.signText negative ++ n.text) =
      (negative, n.text) := by
    obtain ⟨b, t, htext, hb⟩ := n.text_eq_cons
    cases negative with
    | true => rfl
    | false =>
      rw [htext]
      exact sign_digit hb
  have htake : n.text.takeWhile Bytes.isDigit = n.whole :=
    takeWhile_span n.isDigit_whole n.not_digit_tail
  have hdrop : n.text.dropWhile Bytes.isDigit = n.tail :=
    dropWhile_span n.isDigit_whole n.not_digit_tail
  have hexponent : ∀ c ∈ (exponentText n.exponent).head?,
      Bytes.isDigit c = false := by
    intro c hc
    rw [head_exponentText _ c hc]
    rfl
  have hparts : ∀ fraction, n.whole ++ fraction ≠ [] := fun _ h =>
    n.whole_ne_nil (List.append_eq_nil_iff.mp h).1
  unfold DecimalText.parse? parts
  simp only [hsign, htake, hdrop]
  cases hfraction : n.fraction with
  | nil =>
    have htail : n.tail = exponentText n.exponent := by
      rw [tail, hfraction]; rfl
    have hhead := head_exponentText n.exponent
    rw [htail]
    split
    · rename_i heq
      rw [heq] at hhead
      exact absurd (hhead 46 rfl) (by decide)
    · rw [if_neg (hparts []), n.exponent?_text]
      rfl
  | cons c s =>
    have htail : n.tail = 46 :: (n.fraction ++ exponentText n.exponent) := by
      rw [tail, hfraction]
      rfl
    rw [htail]
    split
    · rename_i heq
      cases heq
      rw [takeWhile_span n.isDigit_fraction hexponent,
        dropWhile_span n.isDigit_fraction hexponent, if_neg (hparts _),
        n.exponent?_text, hfraction]
      rfl
    · rename_i hother
      exact absurd rfl (hother _)

theorem isNumberByte_of_digit {b : UInt8} (hb : Bytes.isDigit b = true) :
    Json.isNumberByte b = true := by
  simp [Json.isNumberByte, hb]

theorem ne_point_of_digit {b : UInt8} (hb : Bytes.isDigit b = true) :
    (b != 46) = true := by
  refine bne_iff_ne.mpr ?_
  rintro rfl
  cases hb

theorem mem_exponentText {b : UInt8} (hb : b ∈ exponentText n.exponent) :
    b = 101 ∨ b = 45 ∨ b = 43 ∨ Bytes.isDigit b = true := by
  cases hexponent : n.exponent with
  | none =>
    rw [hexponent] at hb
    cases hb
  | some e =>
    rw [hexponent] at hb
    rcases List.mem_cons.mp hb with rfl | hb
    · exact .inl rfl
    · rcases List.mem_cons.mp hb with rfl | hb
      · cases e.1
        · exact .inr (.inr (.inl rfl))
        · exact .inr (.inl rfl)
      · exact .inr (.inr (.inr ((n.isDigit_exponent e hexponent).2 b hb)))

theorem mem_text {b : UInt8} (hb : b ∈ n.text) :
    Bytes.isDigit b = true ∨ b = 46 ∨ b ∈ exponentText n.exponent := by
  rcases List.mem_append.mp hb with hb | hb
  · exact .inl (n.isDigit_whole b hb)
  · rcases List.mem_append.mp hb with hb | hb
    · cases hfraction : n.fraction with
      | nil =>
        rw [hfraction] at hb
        cases hb
      | cons c s =>
        rw [hfraction] at hb
        rcases List.mem_cons.mp hb with rfl | hb
        · exact .inr (.inl rfl)
        · exact .inl (n.isDigit_fraction b (by rwa [hfraction]))
    · exact .inr (.inr hb)

theorem isNumberByte_text : ∀ b ∈ n.text, Json.isNumberByte b = true := by
  intro b hb
  rcases n.mem_text hb with hb | rfl | hb
  · exact isNumberByte_of_digit hb
  · rfl
  · rcases n.mem_exponentText hb with rfl | rfl | rfl | hb
    · rfl
    · rfl
    · rfl
    · exact isNumberByte_of_digit hb

theorem pointIsFollowed_text : Json.pointIsFollowed n.text = true := by
  have hwhole : ∀ b ∈ n.whole, (b != 46) = true :=
    fun b hb => ne_point_of_digit (n.isDigit_whole b hb)
  have hexponent : ∀ b ∈ exponentText n.exponent, (b != 46) = true := by
    intro b hb
    rcases n.mem_exponentText hb with rfl | rfl | rfl | hb
    · rfl
    · rfl
    · rfl
    · exact ne_point_of_digit hb
  unfold Json.pointIsFollowed
  cases hfraction : n.fraction with
  | nil =>
    have htext : n.text = n.whole ++ exponentText n.exponent := by
      rw [text, tail, hfraction]
      rfl
    have hdrop : n.text.dropWhile (· != 46) = [] := by
      rw [htext, List.dropWhile_eq_nil_iff]
      intro b hb
      exact (List.mem_append.mp hb).elim (hwhole b) (hexponent b)
    rw [hdrop]
  | cons c s =>
    have htext :
        n.text = n.whole ++ (46 :: c :: (s ++ exponentText n.exponent)) := by
      rw [text, tail, hfraction]
      rfl
    rw [htext, dropWhile_span hwhole (by simp)]
    exact n.isDigit_fraction c (by rw [hfraction]; exact List.mem_cons_self)

end Numeral

namespace Json

variable {s rest : Bytes}

theorem not_number_of_separator {b : UInt8} (hb : isSeparator b = true) :
    isNumberByte b = false := by
  simp only [isSeparator, Bool.or_eq_true, beq_iff_eq] at hb
  rcases hb with ((((rfl | rfl) | rfl) | rfl) | rfl) | rfl <;> rfl

theorem not_digit_of_not_number {b : UInt8} (hb : isNumberByte b = false) :
    Bytes.isDigit b = false := by
  cases hdigit : Bytes.isDigit b with
  | false => rfl
  | true =>
    rw [Numeral.isNumberByte_of_digit hdigit] at hb
    cases hb

theorem dropWhile_number_separator {c : UInt8}
    (hs : ∀ b ∈ s, isNumberByte b = true) (hc : isSeparator c = true) :
    (s ++ c :: rest).dropWhile isNumberByte = c :: rest := by
  refine dropWhile_span hs fun b hb => ?_
  cases hb
  exact not_number_of_separator hc

/-- The quick form ends where the number characters end. -/
theorem quickFloat?_spec {reach : Reach} {token : FloatToken}
    (h : quickFloat? reach s = some (token, rest)) :
    (∃ n places, token = .quick n places) ∧
    rest = s.dropWhile isNumberByte := by
  have hwhole : ∀ b ∈ s.takeWhile Bytes.isDigit, isNumberByte b = true :=
    fun b hb => Numeral.isNumberByte_of_digit (List.mem_takeWhile_imp hb)
  have hsplit := List.takeWhile_append_dropWhile (p := Bytes.isDigit) (l := s)
  unfold quickFloat? at h
  dsimp only at h
  split at h
  · cases h
  · rename_i c t hdrop
    rw [hdrop] at hsplit
    split at h
    · rename_i hform
      obtain ⟨n, -, heq⟩ := Option.map_eq_some_iff.mp h
      cases heq
      refine ⟨⟨n, 0, rfl⟩, ?_⟩
      rw [← hsplit]
      exact (dropWhile_number_separator hwhole hform.1).symm
    · split at h
      · rename_i hpoint
        split at h
        · cases h
        · rename_i d u hdrop'
          split at h
          · rename_i hform
            obtain ⟨n, -, heq⟩ := Option.map_eq_some_iff.mp h
            cases heq
            refine ⟨⟨n, _, rfl⟩, ?_⟩
            have hsplit' :=
              List.takeWhile_append_dropWhile (p := Bytes.isDigit) (l := t)
            rw [hdrop'] at hsplit'
            have hfront : ∀ b ∈ s.takeWhile Bytes.isDigit ++ c ::
                t.takeWhile Bytes.isDigit, isNumberByte b = true := by
              intro b hb
              rcases List.mem_append.mp hb with hb | hb
              · exact hwhole b hb
              · rcases List.mem_cons.mp hb with rfl | hb
                · rw [hpoint]
                  rfl
                · exact Numeral.isNumberByte_of_digit
                    (List.mem_takeWhile_imp hb)
            rw [← hsplit, ← hsplit', ← List.cons_append, ← List.append_assoc]
            exact (dropWhile_number_separator hfront hform.1).symm
          · cases h
      · cases h

theorem slowFloat?_numeral (n : Numeral)
    (hrest : ∀ b ∈ rest.head?, isNumberByte b = false) :
    slowFloat? (n.text ++ rest) = some (.text n.text, rest) := by
  obtain ⟨b, t, htext, hb⟩ := n.text_eq_cons
  have hhead : n.text.head? ≠ some 45 := by
    rw [htext]
    rintro heq
    cases heq
    cases hb
  unfold slowFloat?
  dsimp only
  rw [takeWhile_span n.isNumberByte_text hrest,
    dropWhile_span n.isNumberByte_text hrest, if_pos]
  exact ⟨by rw [htext]; exact List.cons_ne_nil _ _, hhead,
    n.pointIsFollowed_text⟩

theorem startsBadly_numeral (n : Numeral)
    (hrest : ∀ b ∈ rest.head?, isNumberByte b = false) :
    startsBadly none (n.text ++ rest) = false := by
  obtain ⟨b, t, hwhole, hb⟩ := n.exists_cons
  have hseparator : isSeparator b = false := by
    cases hsep : isSeparator b with
    | false => rfl
    | true =>
      have hnumber := Numeral.isNumberByte_of_digit hb
      rw [not_number_of_separator hsep] at hnumber
      cases hnumber
  have hpoint : (b == 46) = false :=
    beq_eq_false_iff_ne.mpr (bne_iff_ne.mp (Numeral.ne_point_of_digit hb))
  -- After a zero comes the rest of the numeral or what follows it, and neither
  -- starts with a digit.
  have hnext : b = 48 →
      (t ++ (n.tail ++ rest)).head?.any Bytes.isDigit = false := by
    rintro rfl
    have hlead := n.leading
    rw [hwhole] at hlead
    obtain rfl : t = [] := by
      rcases hlead with heq | hne
      · exact (List.cons.inj heq).2
      · exact absurd rfl hne
    have htail := n.not_digit_tail
    rw [List.nil_append]
    cases hcons : n.tail with
    | cons c u =>
      rw [hcons] at htail
      exact htail c rfl
    | nil =>
      rw [List.nil_append]
      cases hnil : rest with
      | nil => rfl
      | cons c u =>
        rw [hnil] at hrest
        exact not_digit_of_not_number (hrest c rfl)
  rw [Numeral.text, hwhole, List.cons_append, List.cons_append,
    List.append_assoc, startsBadly, hseparator, hpoint]
  by_cases hzero : b = 48
  · rw [hnext hzero, Bool.and_false]
    rfl
  · rw [beq_eq_false_iff_ne.mpr hzero]
    rfl

/-- Whichever form a numeral is recognised in, it is all taken and has a
value. -/
theorem floatToken?_numeral (n : Numeral) {x : Binary64}
    (hx : Binary64.ofText? n.text = some x)
    (hrest : ∀ b ∈ rest.head?, isNumberByte b = false) :
    ∃ token y, floatToken? none (n.text ++ rest) = some (token, rest) ∧
      token.value? = some y := by
  unfold floatToken?
  rw [startsBadly_numeral n hrest, if_neg (by decide)]
  cases hquick : quickFloat? none (n.text ++ rest) with
  | none => exact ⟨_, x, slowFloat?_numeral n hrest, hx⟩
  | some r =>
    obtain ⟨token, left⟩ := r
    obtain ⟨⟨k, places, rfl⟩, rfl⟩ := quickFloat?_spec hquick
    rw [dropWhile_span n.isNumberByte_text hrest]
    cases places with
    | zero => exact ⟨_, _, rfl, rfl⟩
    | succ places => exact ⟨_, _, rfl, rfl⟩

/-- A numeral is taken up to its last byte, if its number is not too large. -/
theorem readFloat_numeral (n : Numeral) {x : Binary64}
    (hx : Binary64.ofText? n.text = some x) (negative : Bool)
    (hrest : ∀ b ∈ rest.head?, isNumberByte b = false) :
    ∃ y, readFloat none (Binary64.signText negative ++ (n.text ++ rest)) =
      some (y, rest) := by
  obtain ⟨token, y, htoken, hvalue⟩ := floatToken?_numeral n hx hrest
  cases negative with
  | true =>
    refine ⟨y.neg, ?_⟩
    show (floatToken? none (n.text ++ rest)).bind _ = _
    rw [htoken, Option.bind_some]
    show token.value?.bind _ = _
    rw [hvalue]
    rfl
  | false =>
    refine ⟨y, ?_⟩
    show readFloat none (n.text ++ rest) = _
    unfold readFloat
    split
    · rename_i t heq
      obtain ⟨b, u, htext, hb⟩ := n.text_eq_cons
      rw [htext] at heq
      cases heq
      cases hb
    · rw [htoken]
      show token.value?.bind _ = _
      rw [hvalue]
      rfl

theorem pushDigit_eq {k : Nat} {b : UInt8}
    (hk : 10 * k + Bytes.digitValue b < 2 ^ 63) :
    pushDigit (UInt64.ofNat k) b =
      some (UInt64.ofNat (10 * k + Bytes.digitValue b)) := by
  have hpushed : UInt64.ofNat k * 10 + UInt64.ofNat (Bytes.digitValue b) =
      UInt64.ofNat (10 * k + Bytes.digitValue b) := by
    rw [Nat.mul_comm, UInt64.ofNat_add, UInt64.ofNat_mul]
    rfl
  have hle : ¬UInt64.ofNat (10 * k + Bytes.digitValue b) < UInt64.ofNat k := by
    rw [UInt64.lt_iff_toNat_lt, UInt64.toNat_ofNat', UInt64.toNat_ofNat']
    omega
  unfold pushDigit
  dsimp only
  rw [hpushed, if_neg fun h => hle h.2]

theorem foldlM_pushDigit {ds : Bytes} (hds : Bytes.number ds < 2 ^ 63) :
    ds.foldlM pushDigit 0 = some (UInt64.ofNat (Bytes.number ds)) := by
  induction ds using List.reverseRecOn with
  | nil => rfl
  | append_singleton ds b ih =>
    rw [Bytes.number_concat] at hds ⊢
    rw [List.foldlM_append, ih (by omega)]
    show (pushDigit _ b).bind _ = _
    rw [pushDigit_eq hds]
    rfl

theorem readNatural_decimal {k : Nat} (hk : k < 2 ^ 63)
    (hrest : ∀ b ∈ rest.head?, isNumberByte b = false) :
    readNatural (Bytes.decimal k ++ rest) = some (UInt64.ofNat k, rest) := by
  have hpoint : rest.head? ≠ some 46 :=
    fun heq => absurd (hrest 46 heq) (by decide)
  by_cases hzero : k = 0
  · subst hzero
    show (if [48] = [] ∨ rest.head? = some 46 then none else _) = _
    rw [if_neg (by simp [hpoint])]
    rfl
  · obtain ⟨b, t, hcons, hb⟩ := Bytes.head_decimal hzero
    have hdigits : ∀ b ∈ Bytes.decimal k, Bytes.isDigit b = true :=
      fun b hb => Bytes.isDigit_of_mem_decimal hb
    have hend : ∀ b ∈ rest.head?, Bytes.isDigit b = false :=
      fun b hb => not_digit_of_not_number (hrest b hb)
    have htake := takeWhile_span hdigits hend
    have hdrop := dropWhile_span hdigits hend
    have hnumber : Bytes.number (Bytes.decimal k) < 2 ^ 63 := by
      rwa [Bytes.number_decimal]
    have hfold := foldlM_pushDigit hnumber
    rw [Bytes.number_decimal] at hfold
    rw [hcons] at hfold htake hdrop ⊢
    rw [List.cons_append] at htake hdrop ⊢
    unfold readNatural
    simp only [if_neg hb, htake, hdrop, hfold, hpoint, List.cons_ne_nil,
      or_self, if_false]
    rfl

/-- A number below `2 ^ 63` is read back as an integer. -/
theorem readInteger_decimal {k : Nat} (hk : k < 2 ^ 63)
    (hrest : ∀ b ∈ rest.head?, isNumberByte b = false) :
    readInteger (Bytes.decimal k ++ rest) = some (Int64.ofInt k, rest) := by
  obtain ⟨b, t, hcons, hb⟩ := (Numeral.ofNat k).exists_cons
  have hbound : (UInt64.ofNat k).toNat = k := by
    rw [UInt64.toNat_ofNat']
    omega
  unfold readInteger
  split
  · rename_i u heq
    rw [show Bytes.decimal k = b :: t from hcons] at heq
    cases heq
    cases hb
  · rw [readNatural_decimal hk hrest]
    show (if (UInt64.ofNat k).toNat < Nat.pow 2 63 then _ else _) = _
    rw [hbound]
    exact if_pos hk

end Json

end TickRelay
