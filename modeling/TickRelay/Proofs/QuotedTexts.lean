import TickRelay.Json.Value
import TickRelay.Proofs.Utf8RoundTrip
import Mathlib.Tactic.IntervalCases

/-!
# Strings that are written and read

**Algorithm.** `quote` writes rune after rune, and the string reader takes byte
after byte. Between two runes the reader is in one of two states, `plain` or
`free`, and in both a byte that needs no escape stands for itself. So each rune
can be followed by itself (`run_quoteRune`).

**Results.** `readBody_quote`: a quoted text is read back, with U+FFFD in place
of each byte outside of all code points, and nothing in it ends the string.
`Closed.quote`: a property of pieces holds of what is written, such as that it
is valid UTF-8 (`closed_isValid`).
-/

namespace TickRelay

namespace Hex

theorem value?_digit {d : Nat} (hd : d < 16) : value? (digit d) = some d := by
  interval_cases d <;> rfl

theorem digit_between {d : Nat} (hd : d < 16) :
    32 ≤ digit d ∧ digit d ≤ 0x7F := by
  interval_cases d <;> decide

theorem mem_fixed {k n : Nat} {b : UInt8} (hb : b ∈ fixed k n) :
    32 ≤ b ∧ b ≤ 0x7F := by
  induction k generalizing n with
  | zero => cases hb
  | succ k ih =>
    rcases List.mem_append.mp hb with hb | hb
    · exact ih hb
    · rw [List.mem_singleton.mp hb]
      exact digit_between (Nat.mod_lt n (by decide))

end Hex

theorem Utf8.toNat_of_mem_encodeChar {c : Char} {b : UInt8}
    (hb : b ∈ String.utf8EncodeChar c) :
    b.toNat = c.toNat ∨ 128 ≤ b.toNat := by
  have hc : c.toNat = c.val.toNat := rfl
  rw [hc]
  unfold String.utf8EncodeChar at hb
  generalize c.val.toNat = v at hb
  dsimp only at hb
  split at hb
  · rw [List.mem_singleton.mp hb, UInt8.toNat_ofNat']
    omega
  · right
    (repeat' split at hb) <;>
    simp only [List.mem_cons, List.not_mem_nil, or_false] at hb
    all_goals
      rcases hb with rfl | rfl | rfl | rfl <;>
        rw [UInt8.toNat_ofNat'] <;> omega

namespace Json
namespace TextState

/-- The states between two runes. -/
def IsOpen (q : TextState) : Prop := q = plain ∨ q = free

variable {q : TextState} {acc s : Bytes} {b c : UInt8}

theorem run_close (hq : q.IsOpen) :
    run q acc (34 :: s) = some (acc.reverse, s) := by
  rcases hq with rfl | rfl <;> rfl

theorem run_plain (hq : q.IsOpen) (hb : isPlain b = true) :
    run q acc (b :: s) = run q (b :: acc) s := by
  simp only [isPlain, Bool.and_eq_true, bne_iff_ne, ne_eq,
    decide_eq_true_eq] at hb
  obtain ⟨⟨hquote, hslash⟩, hcontrol⟩ := hb
  have hlow : ¬b < 32 := UInt8.not_lt.mpr hcontrol
  rcases hq with rfl | rfl
  · rw [run, step, if_neg hquote, if_neg hslash, if_neg hlow]
    rfl
  · rw [run, step, if_neg hquote, if_neg hslash]
    rfl

theorem run_plain_all (hq : q.IsOpen) {u : Bytes}
    (hu : ∀ b ∈ u, isPlain b = true) :
    run q acc (u ++ s) = run q (u.reverse ++ acc) s := by
  induction u generalizing acc with
  | nil => rfl
  | cons b u ih =>
    rw [List.cons_append, run_plain hq (hu b List.mem_cons_self),
      ih fun c hc => hu c (List.mem_cons_of_mem b hc), List.reverse_cons,
      List.append_assoc]
    rfl

theorem run_simpleEscape (hq : q.IsOpen) (hcode : b ≠ 117)
    (hb : simpleEscape? b = some c) :
    run q acc (92 :: b :: s) = run free (c :: acc) s := by
  have hstep : escape.step b = .next free [c] := by
    rw [step, if_neg hcode, hb]
  rcases hq with rfl | rfl
  all_goals
    show run escape acc (b :: s) = _
    rw [run, hstep]
    rfl

/-- The digits of a code but for the last ones. -/
theorem run_digits {k owed n value : Nat} (howed : 0 < owed)
    (hn : n < 16 ^ k) :
    run (code none (k + owed) value) acc (Hex.fixed k n ++ s) =
      run (code none owed (16 ^ k * value + n)) acc s := by
  induction k generalizing owed n s with
  | zero =>
    obtain rfl : n = 0 := Nat.lt_one_iff.mp hn
    rw [Nat.pow_zero, Nat.one_mul, Nat.zero_add]
    rfl
  | succ k ih =>
    have hfront : n / 16 < 16 ^ k :=
      Nat.div_lt_of_lt_mul (by rwa [Nat.pow_succ'] at hn)
    have hlast := Hex.value?_digit (Nat.mod_lt n (by decide : 0 < 16))
    have hvalue :
        16 * (16 ^ k * value + n / 16) + n % 16 =
          16 ^ (k + 1) * value + n := by
      rw [Nat.pow_succ', Nat.mul_assoc]
      omega
    rw [Hex.fixed, List.append_assoc, Nat.add_assoc, Nat.add_comm 1,
      ih (Nat.succ_pos owed) hfront, List.singleton_append, run, step, hlast]
    simp only [hvalue, if_pos (Nat.succ_lt_succ howed)]
    rfl

theorem run_code (hq : q.IsOpen) {n : Nat} (hn : n < 65536)
    (hhalf : isSurrogate n = false) :
    run q acc (92 :: 117 :: (Hex.fixed 4 n ++ s)) =
      run free ((codeText n).reverse ++ acc) s := by
  have hlast := Hex.value?_digit (Nat.mod_lt n (by decide : 0 < 16))
  have hvalue : 16 * (16 ^ 3 * 0 + n / 16) + n % 16 = n := by omega
  have hread : run (code none 4 0) acc (Hex.fixed 4 n ++ s) =
      run free ((codeText n).reverse ++ acc) s := by
    rw [Hex.fixed, List.append_assoc,
      run_digits (k := 3) Nat.one_pos (by omega), List.singleton_append,
      run, step, hlast]
    simp only [hvalue, hhalf, Nat.lt_irrefl, if_false, Bool.false_eq_true]
  rcases hq with rfl | rfl
  · exact hread
  · exact hread

end TextState

/-- No character is half of a pair. -/
theorem isSurrogate_toNat (c : Char) : isSurrogate c.toNat = false := by
  have hvalid : c.toNat < 0xD800 ∨ (0xDFFF < c.toNat ∧ c.toNat < 0x110000) :=
    c.valid
  rw [isSurrogate, Bool.and_eq_false_iff, decide_eq_false_iff_not,
    decide_eq_false_iff_not]
  omega

theorem codeText_toNat (c : Char) :
    codeText c.toNat = String.utf8EncodeChar c := by
  rw [codeText, isSurrogate_toNat, Char.ofNat_toNat]
  exact List.append_nil _

theorem plain_encodeChar {c : Char}
    (hc : 32 ≤ c.toNat ∧ c.toNat ≠ 34 ∧ c.toNat ≠ 92) {b : UInt8}
    (hb : b ∈ String.utf8EncodeChar c) : isPlain b = true := by
  have hbyte := Utf8.toNat_of_mem_encodeChar hb
  simp only [isPlain, Bool.and_eq_true, bne_iff_ne, ne_eq, decide_eq_true_eq,
    ← UInt8.toNat_inj, UInt8.le_iff_toNat_le, UInt8.reduceToNat]
  omega

/-- The reader gets through the written form of a character, and has the
character then. -/
theorem run_quoteChar {q : TextState} (hq : q.IsOpen) (c : Char)
    (acc s : Bytes) :
    ∃ q' : TextState, q'.IsOpen ∧ q.run acc (quoteChar c ++ s) =
      q'.run ((String.utf8EncodeChar c).reverse ++ acc) s := by
  have hsimple {n : Nat} {e b : UInt8} (hn : c.toNat = n) (hcode : e ≠ 117)
      (he : simpleEscape? e = some b)
      (hb : String.utf8EncodeChar (Char.ofNat n) = [b]) :
      ∃ q' : TextState, q'.IsOpen ∧ q.run acc ([92, e] ++ s) =
        q'.run ((String.utf8EncodeChar c).reverse ++ acc) s := by
    refine ⟨.free, .inr rfl, ?_⟩
    rw [← Char.ofNat_toNat c, hn, hb]
    exact TextState.run_simpleEscape hq hcode he
  have hcode (hn : c.toNat < 65536) : ∃ q' : TextState, q'.IsOpen ∧
      q.run acc (92 :: 117 :: (Hex.fixed 4 c.toNat ++ s)) =
        q'.run ((String.utf8EncodeChar c).reverse ++ acc) s := by
    refine ⟨.free, .inr rfl, ?_⟩
    rw [TextState.run_code hq hn (isSurrogate_toNat c), codeText_toNat]
  unfold quoteChar
  dsimp only
  split
  · rename_i hn
    rcases hn with hn | hn
    · rw [hn]
      exact hsimple hn (by decide) rfl rfl
    · rw [hn]
      exact hsimple hn (by decide) rfl rfl
  · split
    · rename_i hn
      exact hsimple hn (by decide) rfl rfl
    · split
      · rename_i hn
        exact hsimple hn (by decide) rfl rfl
      · split
        · rename_i hn
          exact hsimple hn (by decide) rfl rfl
        · split
          · exact hcode (by omega)
          · split
            · rename_i hn
              have htext := hcode (by omega)
              rw [hn] at htext
              exact htext
            · split
              · rename_i hn
                have htext := hcode (by omega)
                rw [hn] at htext
                exact htext
              · refine
                  ⟨q, hq, TextState.run_plain_all hq
                    fun b hb => plain_encodeChar ?_ hb⟩
                omega

/-- The same for a rune. -/
theorem run_quoteRune {q : TextState} (hq : q.IsOpen) (r : Option Char)
    (acc s : Bytes) :
    ∃ q' : TextState, q'.IsOpen ∧ q.run acc (quoteRune r ++ s) =
      q'.run ((String.utf8EncodeChar (r.getD Utf8.replacement)).reverse ++ acc)
          s := by
  cases r with
  | some c => exact run_quoteChar hq c acc s
  | none =>
    refine ⟨.free, .inr rfl, ?_⟩
    exact TextState.run_code hq (n := 0xFFFD) (by decide) rfl

theorem run_quoteRunes {q : TextState} (hq : q.IsOpen)
    (rs : List (Option Char)) (acc rest : Bytes) :
    q.run acc (rs.flatMap quoteRune ++ 34 :: rest) =
      some (acc.reverse ++ Utf8.encode (rs.map (·.getD Utf8.replacement)),
        rest) := by
  induction rs generalizing q acc with
  | nil =>
    rw [List.flatMap_nil, List.nil_append, TextState.run_close hq]
    exact congrArg (fun text => some (text, rest)) (List.append_nil _).symm
  | cons r rs ih =>
    obtain ⟨q', hq', hrun⟩ :=
      run_quoteRune hq r acc (rs.flatMap quoteRune ++ 34 :: rest)
    rw [List.flatMap_cons, List.append_assoc, hrun, ih hq',
      List.reverse_append, List.reverse_reverse, List.append_assoc]
    rfl

theorem readBody_quote (s rest : Bytes) :
    readBody ((Utf8.runes s).flatMap quoteRune ++ 34 :: rest) =
      some (Utf8.repair s, rest) :=
  run_quoteRunes (.inl rfl) _ _ _

theorem quote_append (s rest : Bytes) :
    quote s ++ rest =
      34 :: ((Utf8.runes s).flatMap quoteRune ++ 34 :: rest) := by
  rw [quote, List.cons_append, List.append_assoc]
  rfl

/-- After its opening quote a quoted text is read back, in blocks of any
size. -/
theorem readText_quote (room : Room) (s rest : Bytes) :
    readText room ((Utf8.runes s).flatMap quoteRune ++ 34 :: rest) =
      some (Utf8.repair s, rest) := by
  rw [readText, readBody_quote]

theorem length_le_join (ss : List Bytes) :
    ss.length ≤ (Bytes.join (utf8 ",") ss).length + 1 := by
  induction ss with
  | nil => exact Nat.zero_le _
  | cons s ss ih =>
    cases ss with
    | nil => exact Nat.succ_le_succ (Nat.zero_le _)
    | cons t ss =>
      have hcomma : (utf8 ",").length = 1 := rfl
      rw [Bytes.join, List.length_append, List.length_append,
        hcomma, List.length_cons]
      · omega
      · exact List.cons_ne_nil _ _

theorem token_cons {b : UInt8} {s : Bytes} (hb : isSpace b = false) :
    token (b :: s) = some (b, s) := by
  unfold token skipSpace
  rw [List.dropWhile_cons_of_neg (by simp [hb])]

/-- A quoted text is read back as a value. -/
theorem readString_quote (room : Room) (s rest : Bytes) :
    readString room (quote s ++ rest) = some (Utf8.repair s, rest) := by
  rw [quote_append]
  exact readText_quote room s rest

/-- And as a name. -/
theorem looseName_quote (s rest : Bytes) :
    looseName (quote s ++ rest) = some (Utf8.repair s, rest) := by
  have hbody : readNameBody ((Utf8.runes s).flatMap quoteRune ++ 34 :: rest) =
      some (Utf8.repair s, rest) := run_quoteRunes (.inr rfl) _ _ _
  rw [quote_append]
  exact hbody

/-- A byte of ASCII from the blank on. -/
def isVisibleAscii (b : UInt8) : Bool := 32 ≤ b && b ≤ 0x7F

theorem isVisibleAscii_of_isDigit {b : UInt8} (h : Bytes.isDigit b = true) :
    isVisibleAscii b = true := by
  simp only [Bytes.isDigit, Bool.and_eq_true, decide_eq_true_eq] at h
  rw [isVisibleAscii, Bool.and_eq_true, decide_eq_true_eq, decide_eq_true_eq]
  exact ⟨UInt8.le_trans (by decide) h.1, UInt8.le_trans h.2 (by decide)⟩

/-- A rune is written with visible ASCII, or it is a character that is written
as it is. -/
theorem quoteRune_cases (r : Option Char) :
    (quoteRune r).all isVisibleAscii = true ∨
      ∃ c : Char, (32 ≤ c.toNat ∧ c.toNat ≠ 34 ∧ c.toNat ≠ 92) ∧
        quoteRune r = String.utf8EncodeChar c := by
  cases r with
  | none => exact .inl rfl
  | some c =>
    show (quoteChar c).all isVisibleAscii = true ∨ ∃ d : Char, _ ∧
      quoteChar c = _
    unfold quoteChar
    dsimp only
    split
    · rename_i hn
      left
      rcases hn with hn | hn <;> rw [hn] <;> rfl
    · (repeat' split)
      · exact .inl rfl
      · exact .inl rfl
      · exact .inl rfl
      · left
        rw [List.all_append, Bool.and_eq_true, List.all_eq_true,
          List.all_eq_true]
        refine ⟨List.all_eq_true.mp rfl, fun b hb => ?_⟩
        simpa [isVisibleAscii] using Hex.mem_fixed hb
      · exact .inl rfl
      · exact .inl rfl
      -- Nothing is escaped here, so the character is neither a quote nor a
      -- backslash.
      · exact .inr ⟨c, by omega, rfl⟩

/-- What holds of visible ASCII and of plain characters, and is kept by putting
texts together: so it holds of everything that is written. -/
structure Closed (P : Bytes → Prop) : Prop where
  append : ∀ {s t : Bytes}, P s → P t → P (s ++ t)
  ascii : ∀ {s : Bytes}, s.all isVisibleAscii = true → P s
  plain : ∀ {c : Char}, 32 ≤ c.toNat ∧ c.toNat ≠ 34 ∧ c.toNat ≠ 92 →
    P (String.utf8EncodeChar c)

theorem Closed.quote {P : Bytes → Prop} (h : Closed P) (s : Bytes) :
    P (quote s) := by
  have hrune : ∀ r, P (quoteRune r) := by
    intro r
    rcases quoteRune_cases r with hall | ⟨c, hc, heq⟩
    · exact h.ascii hall
    · rw [heq]
      exact h.plain hc
  have hbody : ∀ rs : List (Option Char), P (rs.flatMap quoteRune) := by
    intro rs
    induction rs with
    | nil => exact h.ascii rfl
    | cons r rs ih => exact h.append (hrune r) ih
  exact h.append (s := [34]) (h.ascii rfl) (h.append (hbody _) (h.ascii rfl))

theorem closed_isValid : Closed fun s => Utf8.isValid s = true where
  append hs ht := Utf8.isValid_append hs ht
  ascii h := by
    refine Utf8.isValid_ascii fun b hb => ?_
    have hb := List.all_eq_true.mp h b hb
    simp only [isVisibleAscii, Bool.and_eq_true, decide_eq_true_eq] at hb
    exact hb.2
  plain _ := Utf8.isValid_encodeChar _

end Json
end TickRelay
