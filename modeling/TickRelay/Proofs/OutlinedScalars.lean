import TickRelay.Proofs.JsonOutline
import Mathlib.Data.List.Pairwise

/-!
# Scalars and where they stand

A text arrives in blocks, and how a string or a number is read may depend on
whether a block ends in it.

**Results.** For each reader of a scalar: what it has read is a word or a
quoted text, and how it reads this at any other place (`Portable`). Integers
and flags are read alike everywhere; a string is if it has no control byte
before its first escape (`IsPlainCore`), and a fractional number if it starts
well and its quick reading is the nearest number (`IsExact`).
-/

namespace TickRelay
namespace Json

/-- A text that goes on with a blank or with a mark that may follow a value. -/
def Breaks (s : Bytes) : Prop := ∃ b t, s = b :: t ∧ endsSkipped b = true

theorem endsSkipped_iff {b : UInt8} :
    endsSkipped b = true ↔ isSpace b = true ∨ isClosing b = true := by
  simp only [endsSkipped, isSeparator, isSpace, isClosing,
    Bool.or_eq_true, beq_iff_eq]
  tauto

theorem breaks_append {after tail : Bytes} (hafter : IsBlank after)
    (htail : Breaks tail) : Breaks (after ++ tail) := by
  cases after with
  | nil => exact htail
  | cons b after =>
    exact ⟨b, _, rfl, endsSkipped_iff.mpr (.inl (hafter b List.mem_cons_self))⟩

theorem Closes.breaks {s : Bytes} (h : Closes s) : Breaks s := by
  obtain ⟨b, t, rfl, hb⟩ := h
  exact ⟨b, t, rfl, endsSkipped_iff.mpr (.inr hb)⟩

theorem Breaks.not_number {s : Bytes} (h : Breaks s) :
    ∀ b ∈ s.head?, isNumberByte b = false := by
  obtain ⟨c, t, rfl, hc⟩ := h
  intro b hb
  obtain rfl : c = b := Option.some.inj hb
  simp only [endsSkipped, isSeparator, Bool.or_eq_true, beq_iff_eq] at hc
  rcases hc with (((((rfl | rfl) | rfl) | rfl) | rfl) | rfl) | rfl <;> rfl

/-- Blanks that a reader left are those after a scalar. -/
theorem exists_scalar {before core : Bytes} (hbefore : IsBlank before)
    (hcore : IsCore core) (rest : Bytes) :
    ∃ s : Scalar, s.Lexical ∧ s.core = core ∧
      before ++ (core ++ rest) = s.text ++ skipSpace rest := by
  refine ⟨⟨before, core, rest.takeWhile isSpace⟩,
    ⟨hbefore, hcore, fun b hb => List.mem_takeWhile_imp hb⟩, rfl, ?_⟩
  rw [Scalar.text, List.append_assoc, List.append_assoc, skipSpace,
    List.takeWhile_append_dropWhile]

namespace TextState

/-- Right after a backslash. -/
def isEscape : TextState → Bool
  | escape => true
  | surrogateEscape _ => true
  | _ => false

variable {q r : TextState} {b : UInt8} {acc s out : Bytes}

theorem step_close (h : q.step b = .close out) :
    b = 34 ∧ q.isEscape = false := by
  cases q <;> simp only [step] at h <;> (repeat' split at h) <;> cases h
  · exact ⟨‹b = 34›, rfl⟩
  · exact ⟨‹b = 34›, rfl⟩
  · exact ⟨‹b = 34›, rfl⟩

theorem ne_of_value? {d : Nat} (h : Hex.value? b = some d) :
    b ≠ 34 ∧ b ≠ 92 := by
  constructor
  · rintro rfl
    cases h
  · rintro rfl
    cases h

theorem step_next (h : q.step b = .next r out) :
    if q.isEscape then r.isEscape = false
    else b = 92 ∧ r.isEscape = true ∨
      b ≠ 34 ∧ b ≠ 92 ∧ r.isEscape = false := by
  cases q with
  | code before owed value =>
    simp only [step] at h
    split at h
    · cases h
    · rename_i hdigit
      have hb := ne_of_value? hdigit
      (repeat' split at h) <;> cases h <;> exact .inr ⟨hb.1, hb.2, rfl⟩
  | _ =>
    simp only [step] at h
    (repeat' split at h) <;> cases h <;> simp_all [isEscape]

/-- What a string reader has taken is the body of a string, and what follows it
does not matter. -/
theorem run_spec {x rest : Bytes} (h : run q acc s = some (x, rest)) :
    ∃ body, s = body ++ 34 :: rest ∧
      (if q.isEscape then ∃ c t, body = c :: t ∧ IsBody t else IsBody body) ∧
      ∀ rest', run q acc (body ++ 34 :: rest') = some (x, rest') := by
  induction s generalizing q acc with
  | nil => cases h
  | cons b s ih =>
    rw [run] at h
    split at h
    · cases h
    · rename_i out hstep
      cases h
      obtain ⟨rfl, hq⟩ := step_close hstep
      refine ⟨[], rfl, by simp [hq, IsBody.nil], fun rest' => ?_⟩
      rw [List.nil_append, run, hstep]
    · rename_i r out hstep
      obtain ⟨body, rfl, hbody, hrun⟩ := ih h
      refine ⟨b :: body, rfl, ?_, fun rest' => ?_⟩
      · have hnext := step_next hstep
        split
        · rename_i hq
          rw [if_pos hq] at hnext
          rw [hnext, if_neg (by decide)] at hbody
          exact ⟨b, body, rfl, hbody⟩
        · rename_i hq
          rw [if_neg hq] at hnext
          rcases hnext with ⟨rfl, hr⟩ | ⟨hquote, hslash, hr⟩
          · rw [if_pos hr] at hbody
            obtain ⟨c, t, rfl, ht⟩ := hbody
            exact .escape ht
          · rw [hr, if_neg (by decide)] at hbody
            exact .plain hquote hslash hbody
      · rw [List.cons_append, run, hstep]
        exact hrun rest'

/-- Where control bytes are allowed the same is read. -/
theorem run_free_of_plain {r : Bytes × Bytes} (h : run plain acc s = some r) :
    run free acc s = some r := by
  induction s generalizing acc with
  | nil => cases h
  | cons b s ih =>
    rw [run] at h ⊢
    by_cases hquote : b = 34
    · simp only [step, if_pos hquote] at h ⊢
      exact h
    · by_cases hslash : b = 92
      · simp only [step, if_neg hquote, if_pos hslash] at h ⊢
        exact h
      · by_cases hlow : b < 32
        · simp only [step, if_neg hquote, if_neg hslash, if_pos hlow] at h
          cases h
        · simp only [step, if_neg hquote, if_neg hslash, if_neg hlow] at h ⊢
          exact ih h

end TextState

/-- The text between two quotes, of which the first is left out; control bytes
are allowed. -/
def bodyText (s : Bytes) : Bytes := ((readNameBody s).map (·.1)).getD []

/-- If it is quoted, it has no control byte before its first escape. -/
def IsPlainCore (core : Bytes) : Prop :=
  ∀ t, core = 34 :: t → (readBody t).isSome = true

section Strings

variable {room room' : Room} {s x rest body : Bytes}

theorem readNameBody_spec (h : readNameBody s = some (x, rest)) :
    ∃ body, IsBody body ∧ s = body ++ 34 :: rest ∧
      x = bodyText (body ++ [34]) ∧
        ∀ rest', readNameBody (body ++ 34 :: rest') = some (x, rest') := by
  obtain ⟨body, hs, hbody, hrun⟩ := TextState.run_spec h
  refine ⟨body, by simpa [TextState.isEscape] using hbody, hs, ?_, hrun⟩
  have hend : readNameBody (body ++ [34]) = some (x, []) := hrun []
  rw [bodyText, hend]
  rfl

theorem readNameBody_of_readBody {r : Bytes × Bytes}
    (h : readBody s = some r) : readNameBody s = some r :=
  TextState.run_free_of_plain h

/-- What follows a body does not matter. -/
theorem readBody_append (hbody : IsBody body)
    (hplain : (readBody (body ++ [34])).isSome = true) (rest : Bytes) :
    readBody (body ++ 34 :: rest) = some (bodyText (body ++ [34]), rest) := by
  obtain ⟨⟨y, r⟩, hy⟩ := Option.isSome_iff_exists.mp hplain
  obtain ⟨body', hsame, hbody', hrun⟩ := TextState.run_spec hy
  obtain ⟨rfl, rfl⟩ :=
    body_injective hbody (by simpa [TextState.isEscape] using hbody') hsame
  have hread : readBody (body ++ 34 :: rest) = some (y, rest) := hrun rest
  rw [hread, bodyText, readNameBody_of_readBody hy]
  rfl

/-- A body that is read without its control bytes being looked at is a body; if
it has none of those that count, it is read at every place. -/
theorem readText_spec (h : readText room s = some (x, rest)) :
    ∃ body, IsBody body ∧ s = body ++ 34 :: rest ∧
      x = bodyText (body ++ [34]) ∧
        ((readBody (body ++ [34])).isSome = true →
          ∀ room' rest', readText room' (body ++ 34 :: rest') =
            some (x, rest')) := by
  have hname : readNameBody s = some (x, rest) := by
    unfold readText at h
    split at h
    · rename_i hbody
      rw [← h]
      exact readNameBody_of_readBody hbody
    · split at h
      · cases h
      · exact h
  obtain ⟨body, hbody, hs, hx, -⟩ := readNameBody_spec hname
  refine ⟨body, hbody, hs, hx, fun hplain room' rest' => ?_⟩
  rw [readText, readBody_append hbody hplain, hx]

theorem literal_eq_some {word : String} :
    literal word s = some rest ↔ s = utf8 word ++ rest := by
  rw [literal, List.isPrefixOf?_eq_some_iff_append_eq, eq_comm]

/-- The text of a scalar that is read as a string: that between its quotes, and
none for `null`. -/
def coreText : Bytes → Bytes
  | 34 :: t => bodyText t
  | _ => []

theorem isCore_word (word : String) (hne : utf8 word ≠ [])
    (hw : (utf8 word).all isWordByte = true) : IsCore (utf8 word) :=
  .word hne (List.all_eq_true.mp hw)

theorem isCore_null : IsCore (utf8 "null") :=
  isCore_word "null" (by decide) rfl

theorem token_null (s : Bytes) :
    token (utf8 "null" ++ s) = some (110, utf8 "ull" ++ s) :=
  token_cons rfl

theorem literal_append (word : String) (s : Bytes) :
    literal word (utf8 word ++ s) = some s :=
  literal_eq_some.mpr rfl

theorem readString_append {blank : Bytes} (h : IsBlank blank) (s : Bytes) :
    readString room (blank ++ s) = readString room s := by
  unfold readString
  rw [token_append h]

theorem looseName_append {blank : Bytes} (h : IsBlank blank) (s : Bytes) :
    looseName (blank ++ s) = looseName s := by
  unfold looseName
  rw [token_append h]

theorem readString_spec (h : readString room s = some (x, rest)) :
    ∃ before core, IsBlank before ∧ IsCore core ∧
      s = before ++ (core ++ rest) ∧ x = coreText core ∧
        (IsPlainCore core →
            ∀ room' rest', readString room' (core ++ rest') =
              some (x, rest')) := by
  obtain ⟨⟨c, t⟩, htoken, hvalue⟩ := Option.bind_eq_some_iff.mp h
  obtain ⟨before, hbefore, rfl, -⟩ := exists_blank_of_token htoken
  dsimp only at hvalue
  split at hvalue
  · rename_i hc
    subst hc
    obtain ⟨body, hbody, rfl, hx, hread⟩ := readText_spec hvalue
    refine ⟨before, 34 :: (body ++ [34]), hbefore,
      .quoted hbody, by simp, hx, ?_⟩
    intro hplain room' rest'
    have htext := hread (hplain _ rfl) room' rest'
    simp only [List.cons_append, List.append_assoc]
    exact htext
  · split at hvalue
    · rename_i hc
      subst hc
      obtain ⟨r, hr, heq⟩ := Option.bind_eq_some_iff.mp hvalue
      cases heq
      rw [literal_eq_some] at hr
      subst hr
      refine ⟨before, utf8 "null", hbefore, isCore_null, rfl, rfl,
        fun _ room' rest' => ?_⟩
      simp [readString, token_null, literal_append]
    · cases hvalue

theorem looseName_spec (h : looseName s = some (x, rest)) :
    ∃ before core, IsBlank before ∧ IsCore core ∧
      s = before ++ (core ++ rest) ∧ x = coreText core ∧
        ∀ rest', looseName (core ++ rest') = some (x, rest') := by
  obtain ⟨⟨c, t⟩, htoken, hvalue⟩ := Option.bind_eq_some_iff.mp h
  obtain ⟨before, hbefore, rfl, -⟩ := exists_blank_of_token htoken
  dsimp only at hvalue
  split at hvalue
  · rename_i hc
    subst hc
    obtain ⟨body, hbody, rfl, hx, hread⟩ := readNameBody_spec hvalue
    refine ⟨before, 34 :: (body ++ [34]), hbefore, .quoted hbody, by simp,
      hx, fun rest' => ?_⟩
    simp only [List.cons_append, List.append_assoc]
    exact hread rest'
  · cases hvalue

/-- The name of a member that has a scalar in the place of its name. -/
def Scalar.key (n : Scalar) : Bytes := coreText n.core

/-- Wherever a name stands before its colon, it is read. -/
def ReadsName (read : Room → Bytes → Option (Bytes × Bytes)) (n : Scalar) :
    Prop :=
  ∀ room rest, readName (read room) (n.text ++ 58 :: rest) = some (n.key, rest)

/-- A reader of names takes a scalar, and takes it at any place if it is of the
right kind. -/
def TakesName (read : Room → Bytes → Option (Bytes × Bytes))
    (steady : Bytes → Prop) : Prop :=
  ∀ room s x rest, read room s = some (x, rest) →
    ∃ before core, IsBlank before ∧ IsCore core ∧
    s = before ++ (core ++ rest) ∧ x = coreText core ∧
      (steady core → ∀ room' blank rest', IsBlank blank →
        read room' (blank ++ (core ++ rest')) = some (x, rest'))

theorem takesName_string : TakesName readString IsPlainCore := by
  intro room s x rest h
  obtain ⟨before, core, hbefore, hcore, hs, hx, hread⟩ := readString_spec h
  refine ⟨before, core, hbefore, hcore, hs, hx,
    fun hplain room' blank rest' hblank => ?_⟩
  rw [readString_append hblank]
  exact hread hplain room' rest'

theorem takesName_loose : TakesName (fun _ => looseName) fun _ => True := by
  intro room s x rest h
  obtain ⟨before, core, hbefore, hcore, hs, hx, hread⟩ := looseName_spec h
  refine ⟨before, core, hbefore, hcore, hs, hx,
    fun _ room' blank rest' hblank => ?_⟩
  dsimp only
  rw [looseName_append hblank]
  exact hread rest'

theorem TakesName.outline {read : Room → Bytes → Option (Bytes × Bytes)}
    {steady : Bytes → Prop} {key : Bytes} (hread : TakesName read steady)
    (h : readName (read room) s = some (key, rest)) :
    ∃ n : Scalar, n.Lexical ∧ s = n.text ++ 58 :: rest ∧ n.key = key ∧
      (steady n.core → ReadsName read n) := by
  obtain ⟨⟨x, t⟩, hx, hcolon⟩ := Option.bind_eq_some_iff.mp h
  obtain ⟨⟨c, u⟩, htoken, hend⟩ := Option.bind_eq_some_iff.mp hcolon
  dsimp only at hend
  split at hend
  · rename_i hc
    subst hc
    cases hend
    obtain ⟨before, core, hbefore, hcore, rfl, rfl, hport⟩ := hread _ _ _ _ hx
    obtain ⟨after, hafter, rfl, -⟩ := exists_blank_of_token htoken
    refine ⟨⟨before, core, after⟩,
      ⟨hbefore, hcore, hafter⟩, by simp [Scalar.text], rfl, ?_⟩
    intro hsteady room' rest'
    have hname := hport hsteady room' before (after ++ 58 :: rest') hbefore
    simp only [readName, Scalar.text, List.append_assoc, hname,
      Option.bind_eq_bind, Option.bind_some, token_append hafter,
      token_cons (show isSpace 58 = false from rfl), if_pos]
    rfl
  · cases hend

/-- A quoted name without a control byte before its first escape. -/
def IsPlainName (core : Bytes) : Prop :=
  ∃ t, core = 34 :: t ∧ (readBody t).isSome = true

theorem IsPlainName.isPlainCore {core : Bytes} (h : IsPlainName core) :
    IsPlainCore core := by
  rintro t rfl
  obtain ⟨t, heq, ht⟩ := h
  cases heq
  exact ht

theorem IsCore.exists_body {t : Bytes} (h : IsCore (34 :: t)) :
    ∃ body, IsBody body ∧ t = body ++ [34] := by
  generalize hcore : 34 :: t = core at h
  cases h with
  | word _ hw =>
    subst hcore
    cases hw 34 List.mem_cons_self
  | quoted hbody => exact ⟨_, hbody, (List.cons.inj hcore).2⟩

/-- Such a name is read in objects of every kind. -/
theorem readsName_of_plain {n : Scalar} (hn : n.Lexical)
    (hplain : IsPlainName n.core) :
    ReadsName readString n ∧ ReadsName (fun _ => looseName) n := by
  obtain ⟨t, hcore, ht⟩ := hplain
  obtain ⟨before, core, after⟩ := n
  subst hcore
  obtain ⟨body, hbody, rfl⟩ := hn.core.exists_body
  have hread := readBody_append hbody ht
  have hcolon : ∀ rest, token (after ++ 58 :: rest) = some (58, rest) := by
    intro rest
    rw [token_append hn.after, token_cons rfl]
  constructor
  · intro room rest
    have hstring :
        readString room (before ++ 34 ::
          (body ++ 34 :: (after ++ 58 :: rest))) =
        some (bodyText (body ++ [34]), after ++ 58 :: rest) := by
      rw [readString_append hn.before]
      simp only [readString, token_cons (show isSpace 34 = false from rfl),
        Option.bind_eq_bind, Option.bind_some, if_pos, readText, hread]
    simp only [readName, Scalar.text, List.append_assoc, List.cons_append,
      List.nil_append, hstring, Option.bind_eq_bind, Option.bind_some,
      hcolon, if_pos]
    rfl
  · intro room rest
    have hname :
        looseName (before ++ 34 :: (body ++ 34 :: (after ++ 58 :: rest))) =
          some (bodyText (body ++ [34]), after ++ 58 :: rest) := by
      rw [looseName_append hn.before]
      simp only [looseName, token_cons (show isSpace 34 = false from rfl),
        Option.bind_eq_bind, Option.bind_some, if_pos,
        readNameBody_of_readBody (hread _)]
    simp only [readName, Scalar.text, List.append_assoc, List.cons_append,
      List.nil_append, hname, Option.bind_eq_bind, Option.bind_some,
      hcolon, if_pos]
    rfl

end Strings

/-- Wherever a scalar stands, it is read as `new` over `old`. -/
def Portable {α : Type} (read : ValueReader α) (core : Bytes) (old new : α) :
    Prop :=
  ∀ room blank tail, IsBlank blank → Breaks tail →
    read room old (blank ++ (core ++ tail)) = some (new, tail)

/-- What remains after a value, up to the mark that follows. -/
theorem breaks_of_closes {rest : Bytes} (h : Closes (skipSpace rest)) :
    Breaks rest := by
  rw [← List.takeWhile_append_dropWhile (p := isSpace) (l := rest)]
  exact breaks_append (fun b hb => List.mem_takeWhile_imp hb) h.breaks

theorem text_outline {room : Room} {old new s rest : Bytes}
    (h : text room old s = some (new, rest)) :
    ∃ sc : Scalar, sc.Lexical ∧ s = sc.text ++ skipSpace rest ∧
      (IsPlainCore sc.core → Portable text sc.core old new) := by
  obtain ⟨before, core, hbefore, hcore, rfl, -, hread⟩ := readString_spec h
  obtain ⟨sc, hsc, rfl, htext⟩ := exists_scalar hbefore hcore rest
  refine ⟨sc, hsc, htext, fun hplain room' blank tail hblank _ => ?_⟩
  rw [text, readString_append hblank]
  exact hread hplain room' tail

section Words

variable {α : Type} {read : Room → Bytes → Option (α × Bytes)}
  {steady : Bytes → Prop}

/-- A reader that takes a word, and takes it at any place if it is of the right
kind. -/
def TakesWord (read : Room → Bytes → Option (α × Bytes))
    (steady : Bytes → Prop) : Prop :=
  ∀ room s x rest, read room s = some (x, rest) → Breaks rest →
    ∃ w, w ≠ [] ∧ (∀ b ∈ w, isWordByte b = true) ∧ s = w ++ rest ∧
      (steady w → ∀ room' tail, Breaks tail →
        read room' (w ++ tail) = some (x, tail))

theorem TakesWord.outline (hread : TakesWord read steady) {room : Room}
    {old new : α} {s rest : Bytes}
    (h : orKeep read room old s = some (new, rest))
    (hrest : Closes (skipSpace rest)) :
    ∃ sc : Scalar, sc.Lexical ∧ s = sc.text ++ skipSpace rest ∧
      (steady sc.core → Portable (orKeep read) sc.core old new) := by
  obtain ⟨⟨c, t⟩, htoken, hvalue⟩ := Option.bind_eq_some_iff.mp h
  obtain ⟨before, hbefore, rfl, hspace⟩ := exists_blank_of_token htoken
  dsimp only at hvalue
  split at hvalue
  · rename_i hc
    subst hc
    obtain ⟨r, hr, heq⟩ := Option.map_eq_some_iff.mp hvalue
    cases heq
    rw [literal_eq_some] at hr
    subst hr
    obtain ⟨sc, hsc, hcore, htext⟩ := exists_scalar hbefore isCore_null rest
    refine ⟨sc, hsc, htext, fun _ room' blank tail hblank _ => ?_⟩
    rw [hcore]
    simp [orKeep, token_append hblank, token_null, literal_append]
  · rename_i hc
    obtain ⟨w, hne, hw, hs, hport⟩ :=
      hread _ _ _ _ hvalue (breaks_of_closes hrest)
    obtain ⟨sc, hsc, rfl, htext⟩ := exists_scalar hbefore (.word hne hw) rest
    rw [hs]
    refine ⟨sc, hsc, htext, fun hsteady room' blank tail hblank htail => ?_⟩
    -- The word begins with the byte that was seen before, so the reader takes
    -- the same way.
    obtain ⟨b, w, hcons⟩ := List.exists_cons_of_ne_nil hne
    have hb : c = b := by
      rw [hcons] at hs
      exact (List.cons.inj hs).1
    subst hb
    have hvalue' := hport hsteady room' tail htail
    rw [hcons, List.cons_append] at hvalue' ⊢
    simp only [orKeep, token_append hblank, token_cons hspace,
      Option.bind_eq_bind, Option.bind_some, if_neg hc]
    exact hvalue'

end Words

theorem isWordByte_of_number {b : UInt8} (h : isNumberByte b = true) :
    isWordByte b = true := by
  cases hword : isWordByte b with
  | true => rfl
  | false =>
    simp only [isWordByte, isSpace, Bool.not_eq_false', Bool.or_eq_true,
      beq_iff_eq] at hword
    rcases hword with ((((((((((rfl | rfl) | rfl) | rfl)) | rfl) | rfl) |
      rfl) | rfl) | rfl) | rfl) | rfl <;> cases h

theorem Breaks.not_digit {s : Bytes} (h : Breaks s) :
    ∀ b ∈ s.head?, Bytes.isDigit b = false :=
  fun b hb => not_digit_of_not_number (h.not_number b hb)

section Integers

variable {s rest : Bytes}

/-- The digits of a natural number, with what follows them. -/
def finishNatural (ds rest : Bytes) : Option (UInt64 × Bytes) :=
  if ds = [] ∨ rest.head? = some 46 then none
  else (ds.foldlM pushDigit 0).map fun n => (n, rest)

theorem readNatural_cons (c : UInt8) (t : Bytes) :
    readNatural (c :: t) = if c = 48 then finishNatural [c] t
      else finishNatural ((c :: t).takeWhile Bytes.isDigit)
        ((c :: t).dropWhile Bytes.isDigit) := by
  by_cases hc : c = 48
  · simp [readNatural, finishNatural, hc]
  · simp only [readNatural, finishNatural, if_neg hc]

theorem finishNatural_eq_some {ds r : Bytes} {n : UInt64} :
    finishNatural ds r = some (n, rest) ↔
      ds ≠ [] ∧ r.head? ≠ some 46 ∧ ds.foldlM pushDigit 0 = some n ∧
      rest = r := by
  unfold finishNatural
  split
  · rename_i h
    constructor
    · intro heq
      cases heq
    · rintro ⟨hne, hpoint, -⟩
      exact absurd h (by simp [hne, hpoint])
  · rename_i h
    simp only [not_or] at h
    rw [Option.map_eq_some_iff]
    constructor
    · rintro ⟨k, hk, heq⟩
      cases heq
      exact ⟨h.1, h.2, hk, rfl⟩
    · rintro ⟨-, -, hk, rfl⟩
      exact ⟨n, hk, rfl⟩

theorem Breaks.head_ne_point {s : Bytes} (h : Breaks s) :
    s.head? ≠ some 46 := by
  intro hpoint
  have hnumber := h.not_number 46 hpoint
  cases hnumber

theorem readNatural_spec {n : UInt64} (h : readNatural s = some (n, rest)) :
    ∃ ds, ds ≠ [] ∧ (∀ b ∈ ds, Bytes.isDigit b = true) ∧ s = ds ++ rest ∧
      ∀ tail, Breaks tail → readNatural (ds ++ tail) = some (n, tail) := by
  cases s with
  | nil => cases h
  | cons c t =>
    rw [readNatural_cons] at h
    split at h
    · rename_i hc
      obtain ⟨hne, -, hn, rfl⟩ := finishNatural_eq_some.mp h
      refine ⟨[c], hne, ?_, rfl, fun tail htail => ?_⟩
      · rw [hc]
        exact List.forall_mem_singleton.mpr rfl
      · rw [List.singleton_append, readNatural_cons, if_pos hc]
        exact finishNatural_eq_some.mpr ⟨hne, htail.head_ne_point, hn, rfl⟩
    · rename_i hc
      obtain ⟨hne, -, hn, rfl⟩ := finishNatural_eq_some.mp h
      have hdigits : ∀ b ∈ (c :: t).takeWhile Bytes.isDigit,
          Bytes.isDigit b = true :=
        fun b hb => List.mem_takeWhile_imp hb
      refine ⟨_, hne, hdigits, List.takeWhile_append_dropWhile.symm,
        fun tail htail => ?_⟩
      obtain ⟨w, hw⟩ : ∃ w, (c :: t).takeWhile Bytes.isDigit = c :: w := by
        rw [List.takeWhile_cons] at hne ⊢
        split
        · exact ⟨_, rfl⟩
        · rename_i hdigit
          simp [hdigit] at hne
      rw [hw] at hdigits hne hn ⊢
      rw [List.cons_append, readNatural_cons, if_neg hc, ← List.cons_append,
        takeWhile_span hdigits htail.not_digit,
        dropWhile_span hdigits htail.not_digit]
      exact finishNatural_eq_some.mpr ⟨hne, htail.head_ne_point, hn, rfl⟩

/-- The two ways of `readInteger`. -/
theorem readInteger_minus (t : Bytes) :
    readInteger (45 :: t) = (readNatural t).bind fun r =>
      if r.1.toNat ≤ Nat.pow 2 63 then
        some (Int64.ofInt (-(r.1.toNat : Int)), r.2)
      else none := rfl

theorem readInteger_digit {b : UInt8} (hb : Bytes.isDigit b = true)
    (t : Bytes) :
    readInteger (b :: t) = (readNatural (b :: t)).bind fun r =>
      if r.1.toNat < Nat.pow 2 63 then some (Int64.ofInt r.1.toNat, r.2)
      else none := by
  unfold readInteger
  split
  · rename_i heq
    obtain ⟨rfl, -⟩ := List.cons.inj heq
    cases hb
  · rfl

theorem takesWord_integer :
    TakesWord (fun _ => readInteger) fun _ => True := by
  intro room s x rest h _
  have hword : ∀ {ds : Bytes}, (∀ b ∈ ds, Bytes.isDigit b = true) →
      ∀ b ∈ ds, isWordByte b = true :=
    fun hds b hb =>
      isWordByte_of_number (Numeral.isNumberByte_of_digit (hds b hb))
  dsimp only at h
  unfold readInteger at h
  split at h
  · rename_i t
    obtain ⟨⟨n, r⟩, hn, hvalue⟩ := Option.bind_eq_some_iff.mp h
    obtain ⟨ds, -, hds, rfl, hread⟩ := readNatural_spec hn
    have hbound : n.toNat ≤ Nat.pow 2 63 ∧ x = Int64.ofInt (-(n.toNat : Int)) ∧
        r = rest := by
      dsimp only at hvalue
      split at hvalue
      · cases hvalue
        exact ⟨‹_›, rfl, rfl⟩
      · cases hvalue
    obtain ⟨hle, rfl, rfl⟩ := hbound
    refine ⟨45 :: ds, List.cons_ne_nil _ _,
      List.forall_mem_cons.mpr ⟨rfl, hword hds⟩, rfl, ?_⟩
    intro _ room' tail htail
    dsimp only
    rw [List.cons_append, readInteger_minus, hread tail htail,
      Option.bind_some, if_pos hle]
  · obtain ⟨⟨n, r⟩, hn, hvalue⟩ := Option.bind_eq_some_iff.mp h
    obtain ⟨ds, hne, hds, rfl, hread⟩ := readNatural_spec hn
    have hbound : n.toNat < Nat.pow 2 63 ∧ x = Int64.ofInt n.toNat ∧
        r = rest := by
      dsimp only at hvalue
      split at hvalue
      · cases hvalue
        exact ⟨‹_›, rfl, rfl⟩
      · cases hvalue
    obtain ⟨hlt, rfl, rfl⟩ := hbound
    refine ⟨ds, hne, hword hds, rfl, fun _ room' tail htail => ?_⟩
    obtain ⟨b, w, rfl⟩ := List.exists_cons_of_ne_nil hne
    have hread' := hread tail htail
    dsimp only
    rw [List.cons_append] at hread' ⊢
    rw [readInteger_digit (hds b List.mem_cons_self), hread',
      Option.bind_some, if_pos hlt]

end Integers

theorem takesWord_flag : TakesWord (fun _ s =>
    match literal "true" s with
    | some rest => some (true, rest)
    | none => (literal "false" s).map ((false, ·))) fun _ => True := by
  intro room s x rest h _
  dsimp only at h
  split at h
  · rename_i r hr
    cases h
    rw [literal_eq_some] at hr
    refine ⟨utf8 "true", by decide, List.all_eq_true.mp rfl, hr,
      fun _ room' tail _ => ?_⟩
    simp only [literal_append]
  · obtain ⟨r, hr, heq⟩ := Option.map_eq_some_iff.mp h
    cases heq
    rw [literal_eq_some] at hr
    refine ⟨utf8 "false", by decide, List.all_eq_true.mp rfl, hr,
      fun _ room' tail _ => ?_⟩
    have hother : literal "true" (utf8 "false" ++ tail) = none := rfl
    simp only [hother, literal_append, Option.map_some]

/-- A number without its minus sign. -/
def unsigned : Bytes → Bytes
  | 45 :: u => u
  | w => w

/-- A number that starts well, and whose quick reading, if it has one, is the
nearest number. -/
structure IsExact (w : Bytes) : Prop where
  starts : startsBadly none (unsigned w) = false
  nearest : ∀ token rest,
    quickFloat? none (unsigned w ++ [44]) = some (token, rest) →
      token.value? = Binary64.ofText? (unsigned w)

section Floats

variable {reach : Reach} {s u rest tail : Bytes} {token : FloatToken}

/-- The quick form: what was taken, and how. -/
inductive IsQuick : Bytes → FloatToken → Prop
  | whole {ds : Bytes} {n : Nat} (hds : ∀ b ∈ ds, Bytes.isDigit b = true)
      (hn : safeValue? ds = some n) : IsQuick ds (.quick n 0)
  | fraction {ds fraction : Bytes} {n : Nat}
      (hds : ∀ b ∈ ds, Bytes.isDigit b = true)
      (hfraction : ∀ b ∈ fraction, Bytes.isDigit b = true)
      (hne : fraction ≠ []) (hplaces : fraction.length ≤ 6)
      (hn : safeValue? (ds ++ fraction) = some n) :
      IsQuick (ds ++ 46 :: fraction) (.quick n fraction.length)

theorem isQuick_of_quickFloat? (h : quickFloat? reach s = some (token, rest)) :
    ∃ u, IsQuick u token ∧ s = u ++ rest := by
  have hsplit := List.takeWhile_append_dropWhile (p := Bytes.isDigit) (l := s)
  unfold quickFloat? at h
  dsimp only at h
  split at h
  · cases h
  · rename_i c t hdrop
    rw [hdrop] at hsplit
    split at h
    · obtain ⟨n, hn, heq⟩ := Option.map_eq_some_iff.mp h
      cases heq
      exact ⟨_, .whole (fun b hb => List.mem_takeWhile_imp hb) hn, hsplit.symm⟩
    · split at h
      · rename_i hpoint
        split at h
        · cases h
        · rename_i d v hdrop'
          split at h
          · rename_i hform
            obtain ⟨n, hn, heq⟩ := Option.map_eq_some_iff.mp h
            cases heq
            have hsplit' :=
              List.takeWhile_append_dropWhile (p := Bytes.isDigit) (l := t)
            rw [hdrop'] at hsplit'
            refine ⟨_, .fraction (fun b hb => List.mem_takeWhile_imp hb)
              (fun b hb => List.mem_takeWhile_imp hb) hform.2.1 hform.2.2.1 hn,
              ?_⟩
            rw [List.append_assoc, List.cons_append, hsplit', ← hpoint, hsplit]
          · cases h
      · cases h

theorem quickFloat?_of_isQuick (h : IsQuick u token) :
    quickFloat? none (u ++ [44]) = some (token, [44]) := by
  have hcomma : ∀ b ∈ ([44] : Bytes).head?, Bytes.isDigit b = false := by
    intro b hb
    obtain rfl : 44 = b := Option.some.inj hb
    rfl
  cases h with
  | whole hds hn =>
    simp only [quickFloat?, takeWhile_span hds hcomma,
      dropWhile_span hds hcomma, hn]
    rfl
  | @fraction ds fraction n hds hfraction hne hplaces hn =>
    have hpoint : ∀ b ∈ (46 :: (fraction ++ [44])).head?,
        Bytes.isDigit b = false := by
      intro b hb
      obtain rfl : 46 = b := Option.some.inj hb
      rfl
    rw [List.append_assoc, List.cons_append]
    have hfirst :
        ¬(isSeparator 46 = true ∧ Reach.covers none (ds.length + 1) = true) :=
      fun h => absurd h.1 (by decide)
    have hform : isSeparator 44 = true ∧ fraction ≠ [] ∧ fraction.length ≤ 6 ∧
        Reach.covers none (ds.length + fraction.length + 2) = true :=
      ⟨rfl, hne, hplaces, rfl⟩
    simp only [quickFloat?, takeWhile_span hds hpoint,
      dropWhile_span hds hpoint, takeWhile_span hfraction hcomma,
      dropWhile_span hfraction hcomma, hn]
    rw [if_neg hfirst, if_pos trivial, if_pos hform]
    rfl

theorem IsQuick.isNumberByte (h : IsQuick u token) :
    ∀ b ∈ u, isNumberByte b = true := by
  have hdigits : ∀ {ds : Bytes}, (∀ b ∈ ds, Bytes.isDigit b = true) →
      ∀ b ∈ ds, Json.isNumberByte b = true :=
    fun hds b hb => Numeral.isNumberByte_of_digit (hds b hb)
  cases h with
  | whole hds => exact hdigits hds
  | fraction hds hfraction =>
    refine List.forall_mem_append.mpr
      ⟨hdigits hds, List.forall_mem_cons.mpr ⟨rfl, hdigits hfraction⟩⟩

/-- What may be read quickly may be read slowly. -/
theorem IsQuick.form (h : IsQuick u token) :
    u.head? ≠ some 45 ∧ pointIsFollowed u = true := by
  have hdigit : ∀ {ds : Bytes}, (∀ b ∈ ds, Bytes.isDigit b = true) →
      ds.head? ≠ some 45 := by
    intro ds hds hhead
    cases hds 45 (List.mem_of_mem_head? hhead)
  have hpoint : ∀ {ds : Bytes}, (∀ b ∈ ds, Bytes.isDigit b = true) →
      ∀ b ∈ ds, (b != 46) = true := by
    intro ds hds b hb
    have := hds b hb
    rw [bne_iff_ne]
    rintro rfl
    cases this
  cases h with
  | whole hds =>
    refine ⟨hdigit hds, ?_⟩
    rw [pointIsFollowed, List.dropWhile_eq_nil_iff.mpr (hpoint hds)]
  | @fraction ds fraction n hds hfraction hne =>
    constructor
    · cases ds with
      | nil => simp
      | cons b ds => exact fun h => hdigit hds h
    · obtain ⟨b, fraction, rfl⟩ := List.exists_cons_of_ne_nil hne
      rw [pointIsFollowed, dropWhile_span (hpoint hds) (by simp)]
      exact hfraction b List.mem_cons_self

theorem startsBadly_append (hne : u ≠ []) (h : startsBadly none u = false)
    (htail : Breaks tail) (reach : Reach) :
    startsBadly reach (u ++ tail) = false := by
  obtain ⟨c, t, rfl⟩ := List.exists_cons_of_ne_nil hne
  have hnext :
      (t ++ tail).head?.any Bytes.isDigit = t.head?.any Bytes.isDigit := by
    cases t with
    | nil =>
      obtain ⟨b, v, rfl, hb⟩ := htail
      exact Breaks.not_digit ⟨b, v, rfl, hb⟩ b rfl
    | cons b t => rfl
  simp only [startsBadly, Reach.covers, Option.all_none, Bool.true_and,
    Bool.and_true, Bool.or_eq_false_iff] at h
  rw [List.cons_append, startsBadly, hnext, h.1.1, h.1.2]
  cases hzero : (c == 48) with
  | false => simp
  | true =>
    rw [hzero, Bool.true_and] at h
    simp [h.2]

theorem exists_digit_of_quickFloat? (hstart : startsBadly reach s = false)
    (h : quickFloat? reach s = some (token, rest)) :
    ∃ b t, s = b :: t ∧ Bytes.isDigit b = true := by
  cases s with
  | nil => cases h
  | cons c t =>
    refine ⟨c, t, rfl, ?_⟩
    by_contra hdigit
    have hcovers : ∀ n, reach.covers (n + 1) = true →
        reach.covers 1 = true := by
      intro n hn
      cases reach with
      | none => rfl
      | some k =>
        simp only [Reach.covers, Option.all_some, decide_eq_true_eq] at hn ⊢
        omega
    have hopen : reach.covers 1 = true → isSeparator c = false ∧ c ≠ 46 := by
      intro hone
      rw [startsBadly, hone, Bool.true_and, Bool.or_eq_false_iff,
        Bool.or_eq_false_iff, beq_eq_false_iff_ne] at hstart
      exact hstart.1
    rw [quickFloat?, List.takeWhile_cons_of_neg hdigit,
      List.dropWhile_cons_of_neg hdigit] at h
    dsimp only at h
    split at h
    · rename_i hsep
      rw [(hopen (hcovers _ hsep.2)).1] at hsep
      cases hsep.1
    · split at h
      · rename_i hpoint
        split at h
        · cases h
        · split at h
          · rename_i hform
            exact (hopen (hcovers _ hform.2.2.2)).2 hpoint
          · cases h
      · cases h

/-- What stands before the end of a number, if one is taken. -/
theorem floatToken?_spec (h : floatToken? reach s = some (token, rest)) :
    ∃ u, u ≠ [] ∧ (∀ b ∈ u, isNumberByte b = true) ∧ u.head? ≠ some 45 ∧
      pointIsFollowed u = true ∧
        s = u ++ rest ∧ (token = .text u ∨ IsQuick u token) := by
  unfold floatToken? at h
  split at h
  · cases h
  rename_i hstart
  rw [Bool.not_eq_true] at hstart
  split at h
  · rename_i r hquick
    cases h
    obtain ⟨u, hu, heq⟩ := isQuick_of_quickFloat? hquick
    refine ⟨u, ?_, hu.isNumberByte, hu.form.1, hu.form.2, heq, .inr hu⟩
    rintro rfl
    -- The rest would begin with the digit that the number began with.
    obtain ⟨b, t, rfl, hb⟩ := exists_digit_of_quickFloat? hstart hquick
    have hrest := (quickFloat?_spec hquick).2
    rw [List.dropWhile_cons_of_pos (Numeral.isNumberByte_of_digit hb),
      show rest = b :: t from heq.symm] at hrest
    have hlength := List.length_dropWhile_le isNumberByte t
    rw [← hrest, List.length_cons] at hlength
    omega
  · unfold slowFloat? at h
    dsimp only at h
    split at h
    · rename_i hform
      cases h
      exact ⟨_, hform.1, fun b hb => List.mem_takeWhile_imp hb, hform.2.1,
        hform.2.2, List.takeWhile_append_dropWhile.symm, .inl rfl⟩
    · cases h

theorem floatToken?_append (hne : u ≠ [])
    (hbytes : ∀ b ∈ u, isNumberByte b = true) (hhead : u.head? ≠ some 45)
    (hpoint : pointIsFollowed u = true) (hstart : startsBadly none u = false)
    (htail : Breaks tail) (reach : Reach) :
    ∃ token, floatToken? reach (u ++ tail) = some (token, tail) ∧
      (token = .text u ∨ IsQuick u token) := by
  rw [floatToken?,
    if_neg (by
    rw [startsBadly_append hne hstart htail]; exact Bool.false_ne_true)]
  split
  · rename_i r hquick
    obtain ⟨token, rest⟩ := r
    obtain ⟨v, hv, heq⟩ := isQuick_of_quickFloat? hquick
    have hrest := (quickFloat?_spec hquick).2
    rw [dropWhile_span hbytes htail.not_number] at hrest
    subst hrest
    obtain rfl := List.append_cancel_right heq
    exact ⟨token, rfl, .inr hv⟩
  · refine ⟨.text u, ?_, .inl rfl⟩
    rw [slowFloat?, takeWhile_span hbytes htail.not_number,
      dropWhile_span hbytes htail.not_number, if_pos ⟨hne, hhead, hpoint⟩]

theorem value?_of_exact {w : Bytes} (hw : IsExact w) (hu : unsigned w = u)
    (htoken : token = .text u ∨ IsQuick u token) :
    token.value? = Binary64.ofText? u := by
  rcases htoken with rfl | hquick
  · rfl
  · have hnearest := hw.nearest token [44]
    rw [hu] at hnearest
    exact hnearest (quickFloat?_of_isQuick hquick)

theorem takesWord_float :
    TakesWord (fun room s => readFloat (room.reach s) s) IsExact := by
  intro room s x rest h _
  have hword : ∀ {u : Bytes}, (∀ b ∈ u, isNumberByte b = true) →
      ∀ b ∈ u, isWordByte b = true :=
    fun hu b hb => isWordByte_of_number (hu b hb)
  dsimp only at h
  unfold readFloat at h
  split at h
  · obtain ⟨⟨token, r⟩, htoken, hvalue⟩ := Option.bind_eq_some_iff.mp h
    obtain ⟨y, hy, heq⟩ := Option.bind_eq_some_iff.mp hvalue
    cases heq
    obtain ⟨u, hne, hbytes, hhead, hpoint, rfl, hform⟩ :=
      floatToken?_spec htoken
    refine ⟨45 :: u, List.cons_ne_nil 45 u,
      List.forall_mem_cons.mpr ⟨rfl, hword hbytes⟩, rfl, ?_⟩
    intro hexact room' tail htail
    obtain ⟨token', htoken', hform'⟩ :=
      floatToken?_append hne hbytes hhead hpoint hexact.starts htail
        (room'.reach (45 :: (u ++ tail))).next
    rw [value?_of_exact hexact rfl hform] at hy
    simp only [List.cons_append, readFloat, htoken', Option.bind_eq_bind,
      Option.bind_some, value?_of_exact hexact rfl hform', hy]
  · rename_i hminus
    obtain ⟨⟨token, r⟩, htoken, hvalue⟩ := Option.bind_eq_some_iff.mp h
    obtain ⟨y, hy, heq⟩ := Option.bind_eq_some_iff.mp hvalue
    cases heq
    obtain ⟨u, hne, hbytes, hhead, hpoint, rfl, hform⟩ :=
      floatToken?_spec htoken
    refine ⟨u, hne, hword hbytes, rfl, ?_⟩
    intro hexact room' tail htail
    have hunsigned : unsigned u = u := by
      unfold unsigned
      split
      · exact absurd rfl hhead
      · rfl
    have hstart := hexact.starts
    rw [hunsigned] at hstart
    obtain ⟨token', htoken', hform'⟩ :=
      floatToken?_append hne hbytes hhead hpoint hstart htail
        (room'.reach (u ++ tail))
    rw [value?_of_exact hexact hunsigned hform] at hy
    dsimp only
    unfold readFloat
    split
    · rename_i t ht
      obtain ⟨b, v, rfl⟩ := List.exists_cons_of_ne_nil hne
      cases ht
      exact absurd rfl hhead
    · simp only [htoken', Option.bind_eq_bind, Option.bind_some,
        value?_of_exact hexact hunsigned hform', hy]

end Floats

end Json
end TickRelay
