import TickRelay.Proofs.SkippedValues

/-!
# Well-formed values

The grammar of JSON on trees: literals, numbers, strings, arrays and objects.

**Results.** A well-formed value whose numbers are in range is skipped at every
place (`Doc.WellFormed.skippable`). In range is what fits in 64 bits, and in 32
bits if it begins with a zero: these are the numbers that a reader accepts that
has no use for them.
-/

namespace TickRelay
namespace Json

def IsDigits (s : Bytes) : Prop := s ≠ [] ∧ ∀ b ∈ s, Bytes.isDigit b = true

inductive IsFraction : Bytes → Prop
  | none : IsFraction []
  | digits {ds : Bytes} (hds : IsDigits ds) : IsFraction (46 :: ds)

inductive IsExponent : Bytes → Prop
  | none : IsExponent []
  | digits {e : UInt8} {sign ds : Bytes} (he : e = 101 ∨ e = 69)
      (hsign : sign = [] ∨ sign = [43] ∨ sign = [45]) (hds : IsDigits ds) :
      IsExponent (e :: (sign ++ ds))

/-- A number without its minus sign; a zero does not stand before other
digits. -/
inductive IsNumeral : Bytes → Prop
  | mk {whole fraction exponent : Bytes} (hwhole : IsDigits whole)
      (hlead : whole = [48] ∨ whole.head? ≠ some 48)
      (hfraction : IsFraction fraction) (hexponent : IsExponent exponent) :
      IsNumeral (whole ++ (fraction ++ exponent))

/-- A number that is not too large. -/
structure IsNumber (w : Bytes) : Prop where
  form : IsNumeral (unsigned w)
  range : (Binary64.ofText? (unsigned w)).isSome = true
  single : w.head? = some 48 → Binary64.fitsSingle w = true

/-- What stands between the quotes of a string. -/
inductive IsStringBody : Bytes → Prop
  | nil : IsStringBody []
  | plain {b : UInt8} {s : Bytes} (hb : isPlain b = true)
      (hs : IsStringBody s) : IsStringBody (b :: s)
  | escape {b : UInt8} {s : Bytes} (hb : b ∈ utf8 "\"\\/bfnrt")
      (hs : IsStringBody s) : IsStringBody (92 :: b :: s)
  | code {b c d e : UInt8} {s : Bytes}
      (hdigits : ∀ x ∈ [b, c, d, e], x ∈ utf8 "0123456789abcdefABCDEF")
      (hs : IsStringBody s) : IsStringBody (92 :: 117 :: b :: c :: d :: e :: s)

/-- A text between quotes. -/
inductive IsString : Bytes → Prop
  | mk {body : Bytes} (hbody : IsStringBody body) :
      IsString (34 :: (body ++ [34]))

inductive IsScalar : Bytes → Prop
  | literal {word : String}
      (h : word = "null" ∨ word = "true" ∨ word = "false") :
      IsScalar (utf8 word)
  | number {w : Bytes} (h : IsNumber w) : IsScalar w
  | string {s : Bytes} (h : IsString s) : IsScalar s

/-- A string in the place of a name, with the blanks around it. -/
structure Scalar.IsName (n : Scalar) : Prop where
  before : IsBlank n.before
  core : IsString n.core
  after : IsBlank n.after

/-- A value of JSON. -/
inductive Doc.WellFormed : Doc → Prop
  | scalar {s : Scalar} (hbefore : IsBlank s.before) (hafter : IsBlank s.after)
      (hcore : IsScalar s.core) : WellFormed (.scalar s)
  | array {before inner after : Bytes} {items : List Doc}
      (hbefore : IsBlank before) (hinner : IsBlank inner)
      (hafter : IsBlank after) (hempty : inner ≠ [] → items = [])
      (hitems : ∀ v ∈ items, WellFormed v) :
      WellFormed (.array before inner items after)
  | object {before inner after : Bytes} {members : List (Scalar × Doc)}
      (hbefore : IsBlank before) (hinner : IsBlank inner)
      (hafter : IsBlank after) (hempty : inner ≠ [] → members = [])
      (hnames : ∀ m ∈ members, m.1.IsName)
      (hvalues : ∀ m ∈ members, WellFormed m.2) :
      WellFormed (.object before inner members after)

section Strings

namespace TextState

/-- The states in which a character may begin. -/
def IsBetween (q : TextState) : Prop :=
  q = plain ∨ q = free ∨ ∃ a, q = surrogate a

variable {q : TextState}

theorem run_piece_plain (hq : q.IsBetween) {b : UInt8} (hb : isPlain b = true)
    (acc s : Bytes) :
    ∃ q' : TextState, ∃ acc', q'.IsBetween ∧
      run q acc (b :: s) = run q' acc' s := by
  simp only [isPlain, Bool.and_eq_true, bne_iff_ne, ne_eq,
    decide_eq_true_eq] at hb
  obtain ⟨⟨hquote, hslash⟩, hcontrol⟩ := hb
  have hlow : ¬b < 32 := UInt8.not_lt.mpr hcontrol
  rcases hq with rfl | rfl | ⟨a, rfl⟩
  · exact ⟨plain, _,
      .inl rfl, by rw [run, step, if_neg hquote, if_neg hslash, if_neg hlow]⟩
  · exact ⟨free, _,
      .inr (.inl rfl), by rw [run, step, if_neg hquote, if_neg hslash]⟩
  · exact ⟨free, _,
      .inr (.inl rfl), by rw [run, step, if_neg hquote, if_neg hslash]⟩

theorem run_piece_escape (hq : q.IsBetween) {b : UInt8}
    (hb : b ∈ utf8 "\"\\/bfnrt") (acc s : Bytes) :
    ∃ q' : TextState, ∃ acc', q'.IsBetween ∧
      run q acc (92 :: b :: s) = run q' acc' s := by
  have hall :
      (utf8 "\"\\/bfnrt").all (fun c => c != 117 && (simpleEscape? c).isSome) =
        true := rfl
  have hsimple := List.all_eq_true.mp hall b hb
  rw [Bool.and_eq_true, bne_iff_ne] at hsimple
  obtain ⟨hcode, hsome⟩ := hsimple
  obtain ⟨c, hc⟩ := Option.isSome_iff_exists.mp hsome
  rcases hq with rfl | rfl | ⟨a, rfl⟩
  · exact ⟨free, _, .inr (.inl rfl), run_simpleEscape (.inl rfl) hcode hc⟩
  · exact ⟨free, _, .inr (.inl rfl), run_simpleEscape (.inr rfl) hcode hc⟩
  · refine ⟨free, (codeText a ++ [c]).reverse ++ acc, .inr (.inl rfl), ?_⟩
    show run (surrogateEscape a) acc (b :: s) = _
    rw [run, step, if_neg hcode, hc]

theorem run_hex {before : Option Nat} {owed value d : Nat} {b : UInt8}
    (hb : Hex.value? b = some d) (acc s : Bytes) :
    run (code before (owed + 2) value) acc (b :: s) =
      run (code before (owed + 1) (16 * value + d)) acc s := by
  rw [run, step, hb]
  rfl

theorem run_last_hex (before : Option Nat) (value : Nat) {d : Nat} {b : UInt8}
    (hb : Hex.value? b = some d) (acc s : Bytes) :
    ∃ q' : TextState, ∃ acc', q'.IsBetween ∧
      run (code before 1 value) acc (b :: s) = run q' acc' s := by
  obtain ⟨q', out, hq', hstep⟩ : ∃ q' : TextState, ∃ out, q'.IsBetween ∧
      (code before 1 value).step b = .next q' out := by
    simp only [step, hb, Nat.lt_irrefl, if_false]
    cases before with
    | some a => exact ⟨free, _, .inr (.inl rfl), rfl⟩
    | none =>
      dsimp only
      split
      · exact ⟨surrogate _, _, .inr (.inr ⟨_, rfl⟩), rfl⟩
      · exact ⟨free, _, .inr (.inl rfl), rfl⟩
  exact ⟨q', _, hq', by rw [run, hstep]⟩

theorem run_piece_code (hq : q.IsBetween) {b c d e : UInt8}
    (hdigits : ∀ x ∈ [b, c, d, e], x ∈ utf8 "0123456789abcdefABCDEF")
    (acc s : Bytes) :
    ∃ q' : TextState, ∃ acc', q'.IsBetween ∧
      run q acc (92 :: 117 :: b :: c :: d :: e :: s) = run q' acc' s := by
  have hhex : ∀ x ∈ [b, c, d, e], ∃ n, Hex.value? x = some n := by
    have hall :
        (utf8 "0123456789abcdefABCDEF").all (fun x => (Hex.value? x).isSome) =
          true := rfl
    exact fun x hx =>
      Option.isSome_iff_exists.mp (List.all_eq_true.mp hall x (hdigits x hx))
  obtain ⟨nb, hb⟩ := hhex b (by simp)
  obtain ⟨nc, hc⟩ := hhex c (by simp)
  obtain ⟨nd, hd⟩ := hhex d (by simp)
  obtain ⟨ne, he⟩ := hhex e (by simp)
  have hcode : ∀ before acc, ∃ q' : TextState, ∃ acc', q'.IsBetween ∧
      run (code before 4 0) acc (b :: c :: d :: e :: s) = run q' acc' s := by
    intro before acc
    rw [run_hex hb, run_hex hc, run_hex hd]
    exact run_last_hex before _ he acc s
  rcases hq with rfl | rfl | ⟨a, rfl⟩
  · exact hcode none acc
  · exact hcode none acc
  · exact hcode (some a) acc

theorem isSome_run (hq : q.IsBetween) {body : Bytes}
    (hbody : IsStringBody body) (acc rest : Bytes) :
    (run q acc (body ++ 34 :: rest)).isSome = true := by
  induction hbody generalizing q acc with
  | nil => rcases hq with rfl | rfl | ⟨a, rfl⟩ <;> rfl
  | plain hb _ ih =>
    obtain ⟨q', acc', hq', hrun⟩ := run_piece_plain hq hb acc _
    exact (congrArg Option.isSome hrun).trans (ih hq' acc')
  | escape hb _ ih =>
    obtain ⟨q', acc', hq', hrun⟩ := run_piece_escape hq hb acc _
    exact (congrArg Option.isSome hrun).trans (ih hq' acc')
  | code hdigits _ ih =>
    obtain ⟨q', acc', hq', hrun⟩ := run_piece_code hq hdigits acc _
    exact (congrArg Option.isSome hrun).trans (ih hq' acc')

end TextState

theorem IsStringBody.isBody {body : Bytes} (h : IsStringBody body) :
    IsBody body := by
  have hhex : ∀ x ∈ utf8 "0123456789abcdefABCDEF", x ≠ 34 ∧ x ≠ 92 := by
    have hall :
        (utf8 "0123456789abcdefABCDEF").all (fun x => x != 34 && x != 92) =
          true := rfl
    intro x hx
    have hne := List.all_eq_true.mp hall x hx
    rwa [Bool.and_eq_true, bne_iff_ne, bne_iff_ne] at hne
  induction h with
  | nil => exact .nil
  | plain hb _ ih =>
    simp only [isPlain, Bool.and_eq_true, bne_iff_ne, ne_eq,
      decide_eq_true_eq] at hb
    exact .plain hb.1.1 hb.1.2 ih
  | escape _ _ ih => exact .escape ih
  | @code b c d e s hdigits _ ih =>
    have hb := hhex b (hdigits b (by simp))
    have hc := hhex c (hdigits c (by simp))
    have hd := hhex d (hdigits d (by simp))
    have he := hhex e (hdigits e (by simp))
    exact .escape
      (.plain hb.1 hb.2
        (.plain hc.1 hc.2 (.plain hd.1 hd.2 (.plain he.1 he.2 ih))))

theorem IsString.isPlainName {s : Bytes} (h : IsString s) : IsPlainName s := by
  cases h with
  | mk hbody => exact ⟨_, rfl, TextState.isSome_run (.inl rfl) hbody [] []⟩

theorem IsString.isCore {s : Bytes} (h : IsString s) : IsCore s := by
  cases h with
  | mk hbody => exact .quoted hbody.isBody

theorem Scalar.IsName.lexical {n : Scalar} (h : n.IsName) : n.Lexical :=
  ⟨h.before, h.core.isCore, h.after⟩

end Strings

section Numbers

variable {u w tail : Bytes}

theorem IsNumeral.cons (h : IsNumeral u) :
    ∃ b t, u = b :: t ∧ Bytes.isDigit b = true := by
  cases h with
  | @mk whole _ _ hwhole =>
    obtain ⟨b, t, rfl⟩ := List.exists_cons_of_ne_nil hwhole.1
    exact ⟨b, _, rfl, hwhole.2 b List.mem_cons_self⟩

theorem IsExponent.mem {e : Bytes} (h : IsExponent e) :
    ∀ b ∈ e, isNumberByte b = true ∧ b ≠ 46 := by
  have hdigit : ∀ {ds : Bytes}, IsDigits ds → ∀ b ∈ ds, isNumberByte b = true ∧
      b ≠ 46 := fun hds b hb =>
    ⟨Numeral.isNumberByte_of_digit (hds.2 b hb),
      bne_iff_ne.mp (Numeral.ne_point_of_digit (hds.2 b hb))⟩
  cases h with
  | none => exact fun b hb => absurd hb List.not_mem_nil
  | digits he hsign hds =>
    refine List.forall_mem_cons.mpr
      ⟨?_, List.forall_mem_append.mpr ⟨?_, hdigit hds⟩⟩
    · rcases he with rfl | rfl <;> decide
    · rcases hsign with rfl | rfl | rfl
      · exact fun b hb => absurd hb List.not_mem_nil
      · exact List.forall_mem_singleton.mpr (by decide)
      · exact List.forall_mem_singleton.mpr (by decide)

theorem IsFraction.mem {f : Bytes} (h : IsFraction f) :
    ∀ b ∈ f, isNumberByte b = true := by
  cases h with
  | none => exact fun b hb => absurd hb List.not_mem_nil
  | digits hds =>
    exact List.forall_mem_cons.mpr
      ⟨rfl, fun b hb => Numeral.isNumberByte_of_digit (hds.2 b hb)⟩

theorem IsNumeral.mem (h : IsNumeral u) : ∀ b ∈ u, isNumberByte b = true := by
  cases h with
  | mk hwhole _ hfraction hexponent =>
    exact List.forall_mem_append.mpr
      ⟨fun b hb => Numeral.isNumberByte_of_digit (hwhole.2 b hb),
        List.forall_mem_append.mpr
          ⟨hfraction.mem, fun b hb => (hexponent.mem b hb).1⟩⟩

/-- After the digits of the whole part comes none. -/
theorem head_fraction {f e : Bytes} (hf : IsFraction f) (he : IsExponent e)
    (tail : Bytes) (htail : ∀ b ∈ tail.head?, Bytes.isDigit b = false) :
    ∀ b ∈ (f ++ (e ++ tail)).head?, Bytes.isDigit b = false := by
  intro b hb
  cases hf with
  | digits =>
    obtain rfl : 46 = b := Option.some.inj hb
    rfl
  | none =>
    cases he with
    | none => exact htail b hb
    | @digits c _ _ hc =>
      obtain rfl : c = b := Option.some.inj hb
      rcases hc with rfl | rfl <;> rfl

theorem IsNumeral.startsWell (h : IsNumeral u) :
    startsBadly none u = false := by
  obtain ⟨b, t, hcons, hb⟩ := h.cons
  have hseparator : isSeparator b = false := by
    cases hsep : isSeparator b with
    | false => rfl
    | true =>
      have hnumber := Numeral.isNumberByte_of_digit hb
      rw [not_number_of_separator hsep] at hnumber
      cases hnumber
  have hpoint : (b == 46) = false :=
    beq_eq_false_iff_ne.mpr (bne_iff_ne.mp (Numeral.ne_point_of_digit hb))
  have hnext : b = 48 → t.head?.any Bytes.isDigit = false := by
    rintro rfl
    cases h with
    | @mk whole f e hwhole hlead hfraction hexponent =>
      obtain rfl : whole = [48] := by
        rcases hlead with hlead | hlead
        · exact hlead
        · obtain ⟨c, v, rfl⟩ := List.exists_cons_of_ne_nil hwhole.1
          cases hcons
          exact absurd rfl hlead
      obtain rfl : t = f ++ e := (List.cons.inj hcons).2.symm
      have hhead := head_fraction hfraction hexponent [] (by simp)
      rw [List.append_nil] at hhead
      cases hfe : f ++ e with
      | nil => rfl
      | cons c v => exact hhead c (by rw [hfe]; rfl)
  rw [hcons, startsBadly, hseparator, hpoint]
  by_cases hzero : b = 48
  · rw [hnext hzero, Bool.and_false]
    rfl
  · rw [beq_eq_false_iff_ne.mpr hzero]
    rfl

theorem IsNumeral.pointIsFollowed (h : IsNumeral u) :
    pointIsFollowed u = true := by
  have hdigit : ∀ {ds : Bytes}, IsDigits ds → ∀ b ∈ ds, (b != 46) = true :=
    fun hds b hb => Numeral.ne_point_of_digit (hds.2 b hb)
  cases h with
  | @mk whole f e hwhole _ hfraction hexponent =>
    unfold Json.pointIsFollowed
    cases hfraction with
    | none =>
      have hall : ∀ b ∈ whole ++ e, (b != 46) = true :=
        List.forall_mem_append.mpr
          ⟨hdigit hwhole, fun b hb => bne_iff_ne.mpr (hexponent.mem b hb).2⟩
      rw [List.nil_append, List.dropWhile_eq_nil_iff.mpr hall]
    | @digits ds hds =>
      obtain ⟨c, v, rfl⟩ := List.exists_cons_of_ne_nil hds.1
      rw [List.cons_append, dropWhile_span (hdigit hwhole) (by simp)]
      exact hds.2 c List.mem_cons_self

/-- A look at the digits of a number, with or without the first one, finds
nothing wrong. -/
theorem scanDigits_numeral {ds f e : Bytes}
    (hds : ∀ b ∈ ds, Bytes.isDigit b = true) (hf : IsFraction f)
    (he : IsExponent e) (htail : Breaks tail) :
    scanDigits (ds ++ (f ++ (e ++ tail))) = .other ∨
      ∃ n, scanDigits (ds ++ (f ++ (e ++ tail))) = .plain n tail := by
  have hhead := head_fraction hf he tail htail.not_digit
  -- After the fraction comes an exponent, or a byte that ends the number.
  have hend : ∃ d v, e ++ tail = d :: v ∧ d ≠ 46 ∧
      (endsSkipped d = true → d :: v = tail) := by
    cases he with
    | none =>
      obtain ⟨d, v, rfl, hd⟩ := htail
      refine ⟨d, v, rfl, ?_, fun _ => rfl⟩
      rintro rfl
      cases hd
    | @digits c _ _ hc =>
      refine ⟨c, _, rfl, ?_, fun hskipped => ?_⟩
      · rcases hc with rfl | rfl <;> decide
      · rcases hc with rfl | rfl <;> cases hskipped
  obtain ⟨d, v, hcons, hpoint, hlast⟩ := hend
  unfold scanDigits
  dsimp only
  rw [takeWhile_span hds hhead, dropWhile_span hds hhead]
  cases hf with
  | none =>
    simp only [List.nil_append, hcons, if_neg hpoint]
    split
    · rename_i hform
      exact .inr ⟨_, by rw [hlast hform.1]⟩
    · exact .inl rfl
  | @digits fs hfs =>
    obtain ⟨b, t, hfs'⟩ := List.exists_cons_of_ne_nil hfs.1
    have hnext : ∀ b ∈ (e ++ tail).head?, Bytes.isDigit b = false := by
      have hnone := head_fraction .none he tail htail.not_digit
      exact hnone
    have hspan := takeWhile_span hfs.2 hnext
    have hdrop := dropWhile_span hfs.2 hnext
    rw [hfs'] at hspan hdrop
    simp only [List.cons_append, hfs', if_true] at hspan hdrop ⊢
    rw [hspan, hdrop, if_neg (List.cons_ne_nil b t), hcons]
    simp only [if_neg hpoint]
    split
    · rename_i hform
      exact .inr ⟨_, by rw [hlast hform]⟩
    · exact .inl rfl

theorem isSome_value? {token : FloatToken}
    (hrange : (Binary64.ofText? u).isSome = true)
    (h : token = .text u ∨ IsQuick u token) : ∃ x, token.value? = some x := by
  rcases h with rfl | hquick
  · exact Option.isSome_iff_exists.mp hrange
  · cases hquick with
    | whole => exact ⟨_, rfl⟩
    | @fraction ds fraction n _ _ hne =>
      obtain ⟨b, t, rfl⟩ := List.exists_cons_of_ne_nil hne
      exact ⟨_, rfl⟩

theorem IsNumeral.floatToken?_text (h : IsNumeral u) (htail : Breaks tail)
    (reach : Reach) :
    ∃ token, floatToken? reach (u ++ tail) = some (token, tail) ∧
      (token = .text u ∨ IsQuick u token) := by
  obtain ⟨b, t, hcons, hb⟩ := h.cons
  have hhead : u.head? ≠ some 45 := by
    rw [hcons]
    intro heq
    obtain rfl : b = 45 := Option.some.inj heq
    cases hb
  exact floatToken?_append (by rw [hcons]; exact List.cons_ne_nil b t) h.mem
    hhead h.pointIsFollowed h.startsWell htail reach

/-- A number with its sign, or without one. -/
theorem IsNumber.cases (h : IsNumber w) :
    IsNumeral w ∧ (Binary64.ofText? w).isSome = true ∨
      ∃ u, w = 45 :: u ∧ IsNumeral u ∧ (Binary64.ofText? u).isSome = true := by
  have hsign : unsigned w = w ∨ w = 45 :: unsigned w := by
    unfold unsigned
    split
    · exact .inr rfl
    · exact .inl rfl
  rcases hsign with hsign | hsign
  · rw [← hsign]
    exact .inl ⟨h.form, h.range⟩
  · exact .inr ⟨unsigned w, hsign, h.form, h.range⟩

theorem IsNumber.readFloat_text (h : IsNumber w) (htail : Breaks tail)
    (reach : Reach) : ∃ x, readFloat reach (w ++ tail) = some (x, tail) := by
  rcases h.cases with ⟨hform, hrange⟩ | ⟨u, rfl, hform, hrange⟩
  · obtain ⟨token, htoken, hcases⟩ := hform.floatToken?_text htail reach
    obtain ⟨x, hx⟩ := isSome_value? hrange hcases
    obtain ⟨b, t, rfl, hb⟩ := hform.cons
    refine ⟨x, ?_⟩
    unfold readFloat
    split
    · rename_i heq
      cases heq
      cases hb
    · simp only [htoken, Option.bind_eq_bind, Option.bind_some, hx]
  · obtain ⟨token, htoken, hcases⟩ := hform.floatToken?_text htail reach.next
    obtain ⟨x, hx⟩ := isSome_value? hrange hcases
    refine ⟨x.neg, ?_⟩
    simp only [List.cons_append, readFloat, htoken, Option.bind_eq_bind,
      Option.bind_some, hx]

theorem IsNumber.skipFloat_text (h : IsNumber w) (htail : Breaks tail)
    (reach : Reach) : skipFloat reach (w ++ tail) = some tail := by
  obtain ⟨x, hx⟩ := h.readFloat_text htail reach
  unfold skipFloat
  split
  · rename_i t heq
    rcases h.cases with ⟨hform, -⟩ | ⟨u, rfl, hform, -⟩
    · obtain ⟨b, v, rfl, hb⟩ := hform.cons
      cases heq
      cases hb
    · obtain ⟨b, v, rfl, hb⟩ := hform.cons
      cases heq
      have hstart :=
        startsBadly_append (List.cons_ne_nil b v) hform.startsWell
          htail reach.next
      rw [List.append_eq, hstart, if_neg (by decide), hx]
      rfl
  · rw [hx]
    rfl

theorem IsNumber.skipSigned_text (h : IsNumber w) (htail : Breaks tail)
    (reach : Reach) : skipSigned reach (w ++ tail) = some tail := by
  have hscan : scanDigits ((w ++ tail).drop 1) = .other ∨
      ∃ n, scanDigits ((w ++ tail).drop 1) = .plain n tail := by
    rcases h.cases with ⟨⟨hwhole, -, hf, he⟩, -⟩ |
      ⟨u, rfl, ⟨hwhole, -, hf, he⟩, -⟩
    · obtain ⟨b, t, rfl⟩ := List.exists_cons_of_ne_nil hwhole.1
      simp only [List.append_assoc, List.cons_append, List.drop_succ_cons,
        List.drop_zero]
      exact scanDigits_numeral
        (fun c hc => hwhole.2 c (List.mem_cons_of_mem b hc)) hf he htail
    · simp only [List.append_assoc, List.cons_append, List.drop_succ_cons,
        List.drop_zero]
      exact scanDigits_numeral hwhole.2 hf he htail
  have hfloat := h.skipFloat_text htail reach
  unfold skipSigned
  rcases hscan with hscan | ⟨n, hscan⟩
  · rw [hscan]
    exact hfloat
  · rw [hscan]
    dsimp only
    split
    · rfl
    · exact hfloat

/-- A number is skipped wherever a block ends. -/
theorem IsNumber.skipNumber_text (h : IsNumber w) (htail : Breaks tail)
    (reach : Reach) : skipNumber reach (w ++ tail) = some tail := by
  have hhead : (w ++ tail).head? = w.head? := by
    rcases h.cases with ⟨hform, -⟩ | ⟨u, rfl, -⟩
    · obtain ⟨b, t, rfl, -⟩ := hform.cons
      rfl
    · rfl
  unfold skipNumber
  rw [hhead]
  split
  · rename_i hzero
    rcases h.cases with ⟨hform, -⟩ | ⟨u, rfl, -⟩
    · obtain ⟨token, htoken, hcases⟩ := hform.floatToken?_text htail reach
      have hfits : token.fitsSingle = true := by
        rcases hcases with rfl | hquick
        · exact h.single hzero
        · cases hquick <;> rfl
      simp only [skipZero, htoken, hfits, if_true]
    · cases hzero
  · exact h.skipSigned_text htail reach

theorem IsNumber.isCore (h : IsNumber w) : IsCore w := by
  rcases h.cases with ⟨hform, -⟩ | ⟨u, rfl, hform, -⟩
  · obtain ⟨b, t, hcons, -⟩ := hform.cons
    exact .word (by rw [hcons]; exact List.cons_ne_nil b t) fun b hb =>
      isWordByte_of_number (hform.mem b hb)
  · exact .word (List.cons_ne_nil 45 u)
      (List.forall_mem_cons.mpr
        ⟨rfl, fun b hb => isWordByte_of_number (hform.mem b hb)⟩)

theorem IsNumber.cons (h : IsNumber w) :
    ∃ b t, w = b :: t ∧ (b = 45 ∨ Bytes.isDigit b = true) := by
  rcases h.cases with ⟨hform, -⟩ | ⟨u, rfl, -⟩
  · obtain ⟨b, t, rfl, hb⟩ := hform.cons
    exact ⟨b, t, rfl, .inr hb⟩
  · exact ⟨45, u, rfl, .inl rfl⟩

end Numbers

section Values

theorem IsScalar.isCore {core : Bytes} (h : IsScalar core) : IsCore core := by
  cases h with
  | literal hword =>
    rcases hword with rfl | rfl | rfl
    · exact isCore_null
    · exact isCore_word "true" (by decide) rfl
    · exact isCore_word "false" (by decide) rfl
  | number hw => exact hw.isCore
  | string hs => exact hs.isCore

theorem skipValue_number {room : Room} {b : UInt8} {t tail : Bytes}
    (hb : b = 45 ∨ Bytes.isDigit b = true)
    (hskip : ∀ reach, skipNumber reach (b :: t) = some tail) :
    skipValue room 0 (b :: t) = some tail := by
  have hnumber : isNumberByte b = true := by
    rcases hb with rfl | hb
    · rfl
    · exact Numeral.isNumberByte_of_digit hb
  have hother : ∀ c, isNumberByte c = false → b ≠ c := by
    rintro c hc rfl
    rw [hnumber] at hc
    cases hc
  unfold skipValue
  rw [token_cons (not_space_of_word (isWordByte_of_number hnumber))]
  simp only [Option.bind_eq_bind, Option.bind_some, if_neg (hother 34 rfl),
    if_neg (hother 110 rfl), if_neg (hother 116 rfl), if_neg (hother 102 rfl),
    if_pos hb, hskip]

theorem IsScalar.skipValue_text {core tail : Bytes} (h : IsScalar core)
    (room : Room) (htail : Breaks tail) :
    skipValue room 0 (core ++ tail) = some tail := by
  cases h with
  | literal hword =>
    rcases hword with rfl | rfl | rfl
    · unfold skipValue
      rw [token_null]
      exact literal_append "ull" tail
    · unfold skipValue
      rw [show token (utf8 "true" ++ tail) =
        some (116, utf8 "rue" ++ tail) from token_cons rfl]
      exact literal_append "rue" tail
    · unfold skipValue
      rw [show token (utf8 "false" ++ tail) =
        some (102, utf8 "alse" ++ tail) from token_cons rfl]
      exact literal_append "alse" tail
  | number hw =>
    have hskip := hw.skipNumber_text htail
    obtain ⟨b, t, rfl, hb⟩ := hw.cons
    exact skipValue_number hb hskip
  | string hs =>
    obtain ⟨t, rfl, ht⟩ := hs.isPlainName
    obtain ⟨body, hbody, rfl⟩ := hs.isCore.exists_body
    unfold skipValue
    rw [List.cons_append, token_cons rfl, List.append_assoc]
    simp only [Option.bind_eq_bind, Option.bind_some, if_pos, readText,
      List.singleton_append, readBody_append hbody ht, Option.map_some]

namespace Doc

variable {d : Doc}

theorem WellFormed.lexical (h : d.WellFormed) : d.Lexical := by
  induction h with
  | scalar hbefore hafter hcore =>
    exact .scalar ⟨hbefore, hcore.isCore, hafter⟩
  | array hbefore hinner hafter hempty _ ih =>
    exact .array hbefore hinner hafter hempty ih
  | object hbefore hinner hafter hempty hnames _ ih =>
    exact .object hbefore hinner hafter hempty
      (fun m hm => (hnames m hm).lexical) ih

/-- A well-formed value is skipped at every place. -/
theorem WellFormed.skippable (h : d.WellFormed) : d.Skippable := by
  induction h with
  | scalar _ _ hcore =>
    exact .scalar fun room tail htail => hcore.skipValue_text room htail
  | array _ _ _ _ _ ih => exact .array ih
  | object _ _ _ _ hnames _ ih =>
    exact .object (fun m hm => (hnames m hm).core.isPlainName) ih

end Doc

end Values

end Json
end TickRelay
