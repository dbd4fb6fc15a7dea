import TickRelay.Config.Settings
import TickRelay.Proofs.WellFormedValues
import Mathlib.Logic.Relation

/-!
# Rearranged trees

A `Shape` says what is read from each part of a tree, and so which names mean
something in it. A tree may be rearranged: members of its objects may change
places, and members that nothing reads may be added, at any level
(`Rearranged`).

**Results.** What it is for a reader to overlay a value (`Overlays`): what it
accepts is a tree, settings that the tree does not name stay, and if no name is
given twice and nothing in the tree depends on where it stands, then it is read
to the same value after any rearrangement. Texts, lists of texts, integers,
flags and numbers are read in this way.
-/

namespace TickRelay

/-- The setting at a path of names. -/
def Config.Setting.at? : Config.Setting → List String → Option Config.Setting
  | x, [] => some x
  | .group settings, name :: path => (settings.lookup name).bind (·.at? path)
  | _, _ :: _ => none

namespace Json

open Config (Setting)

/-- The name rule of a record. -/
def NameRule.ofStrict : Bool → NameRule
  | true => .strict
  | false => .loose

/-- What is read from a value. -/
inductive Shape where
  | text
  | texts
  | integer
  | number
  | flag
  | group (strict : Bool) (fields : List (String × Shape))
  /-- A value that is skipped. -/
  | unread

namespace Shape

/-- Whether a member name stands for the name of a field. -/
def spells : Shape → Bytes → String → Bool
  | .group strict _, key, name =>
    (NameRule.ofStrict strict).fold key == (utf8 name).map Bytes.lower
  | _, _, _ => false

/-- Whether a member name is that of a field. -/
def knows : Shape → Bytes → Bool
  | .group strict fields, key =>
    fields.any fun f => (group strict fields).spells key f.1
  | _, _ => false

/-- What is read from the member of a name. -/
def child : Shape → Bytes → Shape
  | .group strict fields, key =>
    ((fields.find? fun f => (group strict fields).spells key f.1).map
      (·.2)).getD .unread
  | _, _ => .unread

def isGroup : Shape → Bool
  | .group _ _ => true
  | _ => false

/-- Whether every scalar that is accepted is read alike wherever it stands. -/
def isLenient : Shape → Bool
  | .text => false
  | .number => false
  | .unread => false
  | _ => true

end Shape

/-- A path of names leads to a value of a tree. -/
def Names : List String → Shape → Doc → Prop
  | [], _, _ => True
  | name :: path, sh, d =>
    ∃ m ∈ d.members, sh.spells m.1.key name = true ∧
      Names path (sh.child m.1.key) m.2

instance Names.decidable :
    (path : List String) → (sh : Shape) → (d : Doc) →
    Decidable (Names path sh d)
  | [], _, _ => .isTrue trivial
  | _ :: path, _, d =>
    have := Names.decidable path
    inferInstanceAs (Decidable (∃ m ∈ d.members, _ ∧ _))

/-- No two names of an object that is read are the same. -/
inductive Doc.Distinct : Shape → Doc → Prop
  | group {strict : Bool} {fields : List (String × Shape)}
      {before inner after : Bytes} {members : List (Scalar × Doc)}
      (hkeys : (members.map fun m =>
        (NameRule.ofStrict strict).fold m.1.key).Nodup)
      (hvalues : ∀ m ∈ members,
        Distinct ((Shape.group strict fields).child m.1.key) m.2) :
      Distinct (.group strict fields) (.object before inner members after)
  | other {sh : Shape} {d : Doc} (h : d.kind = .object → sh.isGroup = false) :
      Distinct sh d

/-- Nothing in a tree depends on where it stands. -/
inductive Doc.Steady : Shape → Doc → Prop
  | text {s : Scalar} (h : IsPlainCore s.core) : Steady .text (.scalar s)
  | number {s : Scalar} (h : IsExact s.core) : Steady .number (.scalar s)
  | scalar {sh : Shape} {s : Scalar} (h : sh.isLenient = true) :
      Steady sh (.scalar s)
  | texts {before inner after : Bytes} {items : List Doc}
      (hitems : ∀ v ∈ items, Steady .text v) :
      Steady .texts (.array before inner items after)
  | group {strict : Bool} {fields : List (String × Shape)}
      {before inner after : Bytes} {members : List (Scalar × Doc)}
      (hnames : strict = true → ∀ m ∈ members, IsPlainCore m.1.core)
      (hvalues : ∀ m ∈ members,
        Steady ((Shape.group strict fields).child m.1.key) m.2) :
      Steady (.group strict fields) (.object before inner members after)
  | unread {d : Doc} (h : d.Skippable) : Steady .unread d

/-- One change: the members of an object in another order, a member more that
nothing reads, or a change inside of a value. -/
inductive Doc.Step : Shape → Doc → Doc → Prop
  | reorder {sh : Shape} {before inner after : Bytes}
      {members members' : List (Scalar × Doc)} (h : members.Perm members') :
      Step sh (.object before inner members after)
          (.object before inner members' after)
  | insert {sh : Shape} {before inner after : Bytes}
      (front : List (Scalar × Doc)) {back : List (Scalar × Doc)} {n : Scalar}
      {v : Doc} (hunknown : sh.knows n.key = false) (hn : n.IsName)
      (hv : v.WellFormed) :
      Step sh (.object before inner (front ++ back) after)
          (.object before [] (front ++ (n, v) :: back) after)
  | member {sh : Shape} {before inner after : Bytes}
      (front : List (Scalar × Doc)) {back : List (Scalar × Doc)} {n : Scalar}
      {v w : Doc} (h : Step (sh.child n.key) v w) :
      Step sh (.object before inner (front ++ (n, v) :: back) after)
          (.object before inner (front ++ (n, w) :: back) after)
  | item {before inner after : Bytes} (front : List Doc) {back : List Doc}
      {v w : Doc} (h : Step .unread v w) :
      Step .unread (.array before inner (front ++ v :: back) after)
          (.array before inner (front ++ w :: back) after)

/-- Any number of changes. -/
def Doc.Rearranged (sh : Shape) : Doc → Doc → Prop :=
  Relation.ReflTransGen (Doc.Step sh)

theorem forall_mem_middle {μ : Type} {P : μ → Prop} {front back : List μ}
    {m : μ} :
    (∀ x ∈ front ++ m :: back, P x) ↔ P m ∧ ∀ x ∈ front ++ back, P x := by
  simp only [List.forall_mem_append, List.forall_mem_cons]
  tauto

namespace Doc

variable {sh : Shape} {d e : Doc}

theorem Step.lexical (h : Step sh d e) (hd : d.Lexical) : e.Lexical := by
  induction h with
  | reorder hperm =>
    cases hd with
    | object hbefore hinner hafter hempty hnames hvalues =>
      refine .object hbefore hinner hafter ?_
        (fun m hm => hnames m (hperm.mem_iff.mpr hm)) fun m hm =>
        hvalues m (hperm.mem_iff.mpr hm)
      intro hne
      rw [hempty hne] at hperm
      exact hperm.nil_eq.symm
  | insert _ _ hn hv =>
    cases hd with
    | object hbefore _ hafter _ hnames hvalues =>
      exact .object hbefore isBlank_nil hafter (fun hne => absurd rfl hne)
        (forall_mem_middle.mpr ⟨hn.lexical, hnames⟩)
        (forall_mem_middle.mpr ⟨hv.lexical, hvalues⟩)
  | member _ _ ih =>
    cases hd with
    | object hbefore hinner hafter hempty hnames hvalues =>
      rw [forall_mem_middle] at hnames hvalues
      refine .object hbefore hinner hafter (fun hne => ?_)
        (forall_mem_middle.mpr hnames)
        (forall_mem_middle.mpr ⟨ih hvalues.1, hvalues.2⟩)
      exact absurd (hempty hne) (by simp)
  | item _ _ ih =>
    cases hd with
    | array hbefore hinner hafter hempty hitems =>
      rw [forall_mem_middle] at hitems
      refine .array hbefore hinner hafter (fun hne => ?_)
        (forall_mem_middle.mpr ⟨ih hitems.1, hitems.2⟩)
      exact absurd (hempty hne) (by simp)

/-- A change in a value that is skipped leaves one that is. -/
theorem Step.skippable (h : Step sh d e) (hsh : sh = .unread)
    (hd : d.Skippable) : e.Skippable := by
  induction h with
  | reorder hperm =>
    cases hd with
    | object hnames hvalues =>
      exact .object (fun m hm => hnames m (hperm.mem_iff.mpr hm)) fun m hm =>
        hvalues m (hperm.mem_iff.mpr hm)
  | insert _ _ hn hv =>
    cases hd with
    | object hnames hvalues =>
      exact .object (forall_mem_middle.mpr ⟨hn.core.isPlainName, hnames⟩)
        (forall_mem_middle.mpr ⟨hv.skippable, hvalues⟩)
  | member _ _ ih =>
    cases hd with
    | object hnames hvalues =>
      rw [forall_mem_middle] at hnames hvalues
      exact .object (forall_mem_middle.mpr hnames)
        (forall_mem_middle.mpr ⟨ih (by rw [hsh]; rfl) hvalues.1, hvalues.2⟩)
  | item _ _ ih =>
    cases hd with
    | array hitems =>
      rw [forall_mem_middle] at hitems
      exact .array (forall_mem_middle.mpr ⟨ih rfl hitems.1, hitems.2⟩)

theorem Step.kind (h : Step sh d e) :
    d.kind = .object ∨ d.kind = .array ∧ sh = .unread := by
  cases h with
  | item => exact .inr ⟨rfl, rfl⟩
  | _ => exact .inl rfl

theorem Rearranged.kind_eq (h : Rearranged sh d e) : e.kind = d.kind := by
  induction h with
  | refl => rfl
  | tail _ hstep ih =>
    rw [← ih]
    cases hstep <;> rfl

/-- There is nothing to change in a scalar, nor in an array that is read. -/
theorem Rearranged.eq_of_fixed (h : Rearranged sh d e)
    (hobject : d.kind ≠ .object) (harray : d.kind = .array → sh ≠ .unread) :
    e = d := by
  induction h with
  | refl => rfl
  | tail _ hstep ih =>
    subst ih
    rcases hstep.kind with hkind | ⟨hkind, hsh⟩
    · exact absurd hkind hobject
    · exact absurd hsh (harray hkind)

end Doc

section Settling

variable {α : Type} {sh : Shape} {r : ValueReader α} {d e : Doc} {old new : α}

/-- Wherever a tree stands, it is read as `new` over `old`, and what follows it
is left, up to blanks. -/
def Settles (r : ValueReader α) (d : Doc) (old new : α) : Prop :=
  ∀ room tail, d.depth ≤ room.depth → d.text.length ≤ room.length →
    (d.kind = .scalar → Breaks tail) →
    ∃ rest, r room old (d.text ++ tail) = some (new, rest) ∧
    skipSpace rest = skipSpace tail

/-- The same of everything that a tree may be rearranged to. -/
def Holds (sh : Shape) (r : ValueReader α) (d : Doc) (old new : α) : Prop :=
  ∀ e, Doc.Rearranged sh d e → Settles r e old new

theorem Holds.settles (h : Holds sh r d old new) : Settles r d old new :=
  h d .refl

theorem Holds.step (h : Holds sh r d old new) (hstep : Doc.Step sh d e) :
    Holds sh r e old new :=
  fun e' he' => h e' (.head hstep he')

/-- How a tree is read over a value: settings that are not named in it stay,
and if no name is given twice and nothing depends on where it stands, it may be
rearranged. -/
structure Overlay (sh : Shape) (r : ValueReader α) (view : α → Setting)
    (old new : α) (d : Doc) : Prop where
  lexical : d.Lexical
  frame : ∀ path, ¬Names path sh d → (view new).at? path = (view old).at? path
  holds : d.Distinct sh → d.Steady sh → Holds sh r d old new

/-- Whatever a reader accepts before a mark is a tree that is read in this
way. -/
def Overlays (sh : Shape) (r : ValueReader α) (view : α → Setting) : Prop :=
  ∀ room old new s rest, r room old s = some (new, rest) →
    Closes (skipSpace rest) →
    ∃ d, Overlay sh r view old new d ∧ s = d.text ++ skipSpace rest

theorem Portable.read_text {sc : Scalar} (hsc : sc.Lexical)
    (h : Portable r sc.core old new) (room : Room) {tail : Bytes}
    (htail : Breaks tail) :
    r room old (sc.text ++ tail) = some (new, sc.after ++ tail) := by
  rw [Scalar.text, List.append_assoc, List.append_assoc]
  exact h room sc.before (sc.after ++ tail) hsc.before
    (breaks_append hsc.after htail)

theorem Portable.settles {sc : Scalar} (hsc : sc.Lexical)
    (h : Portable r sc.core old new) :
    Settles r (.scalar sc) old new := fun room tail _ _ htail =>
  ⟨sc.after ++ tail, h.read_text hsc room (htail rfl),
    skipSpace_append hsc.after tail⟩

/-- A scalar names nothing and cannot be changed. -/
theorem Portable.overlay {view : α → Setting} {sc : Scalar} (hsc : sc.Lexical)
    (hview : ∀ name path,
      (view new).at? (name :: path) = (view old).at? (name :: path))
    (h : Doc.Steady sh (.scalar sc) → Portable r sc.core old new) :
    Overlay sh r view old new (.scalar sc) where
  lexical := .scalar hsc
  frame := by
    intro path hnames
    cases path with
    | nil => exact absurd trivial hnames
    | cons name path => exact hview name path
  holds := by
    intro _ hsteady e he
    obtain rfl := he.eq_of_fixed (by simp [Doc.kind]) (by simp [Doc.kind])
    exact (h hsteady).settles hsc

/-- A reader of scalars. -/
theorem overlays_scalar (steady : Bytes → Prop) {view : α → Setting}
    (houtline : ∀ room old new s rest, r room old s = some (new, rest) →
      Closes (skipSpace rest) →
      ∃ sc : Scalar, sc.Lexical ∧ s = sc.text ++ skipSpace rest ∧
        (steady sc.core → Portable r sc.core old new))
    (hsteady : ∀ sc, Doc.Steady sh (.scalar sc) → steady sc.core)
    (hview : ∀ x name path, (view x).at? (name :: path) = none) :
    Overlays sh r view := by
  intro room old new s rest h hrest
  obtain ⟨sc, hsc, hs, hport⟩ := houtline room old new s rest h hrest
  refine ⟨.scalar sc,
    Portable.overlay hsc ?_ fun hscalar => hport (hsteady sc hscalar), hs⟩
  intro name path
  rw [hview, hview]

theorem overlays_text : Overlays .text text .text := by
  refine overlays_scalar IsPlainCore (fun _ _ _ _ _ h _ => text_outline h) ?_
    fun _ _ _ => rfl
  intro sc hsc
  cases hsc with
  | text h => exact h
  | scalar h => cases h

theorem overlays_integer : Overlays .integer integer .integer :=
  overlays_scalar (fun _ => True)
    (fun _ _ _ _ _ h hrest => takesWord_integer.outline h hrest)
    (fun _ _ => trivial) fun _ _ _ => rfl

theorem overlays_flag : Overlays .flag flag .flag :=
  overlays_scalar (fun _ => True)
    (fun _ _ _ _ _ h hrest => takesWord_flag.outline h hrest)
    (fun _ _ => trivial) fun _ _ _ => rfl

theorem overlays_number : Overlays .number float .number := by
  refine overlays_scalar IsExact
    (fun _ _ _ _ _ h hrest => takesWord_float.outline h hrest) ?_ fun _ _ _ =>
    rfl
  intro sc hsc
  cases hsc with
  | number h => exact h
  | scalar h => cases h

end Settling

section TextLists

/-- A text of a list, put before the others. -/
abbrev textItem (room : Room) :
    List Bytes → Bytes → Option (List Bytes × Bytes) :=
  fun acc s => (readString room s).map fun r => (r.1 :: acc, r.2)

/-- The same, seen from the text. -/
def TakesText (acc : List Bytes) (sc : Scalar) (acc' : List Bytes) : Prop :=
  sc.Lexical ∧ ∃ x, acc' = x :: acc ∧
    (IsPlainCore sc.core → Portable text sc.core [] x)

variable {room : Room} {acc acc' : List Bytes}

theorem textItems_outline {k : Nat} {s rest : Bytes}
    (h : items (textItem room) 93 k acc s = some (acc', rest)) :
    ∃ scs, scs ≠ [] ∧ Chain TakesText acc scs acc' ∧
      s = Bytes.join [44] (scs.map Scalar.text) ++ 93 :: rest := by
  refine items_outline TakesText Scalar.text rfl ?_ h
  intro acc s acc' rest hitem _
  obtain ⟨⟨x, r⟩, hx, heq⟩ := Option.map_eq_some_iff.mp hitem
  cases heq
  have htext : text room [] s = some (x, r) := hx
  obtain ⟨sc, hsc, hs, hport⟩ := text_outline htext
  exact ⟨sc, ⟨hsc, x, rfl, hport⟩, hs⟩

theorem textItems_join {scs : List Scalar} (hne : scs ≠ [])
    (hchain : Chain TakesText acc scs acc')
    (hplain : ∀ sc ∈ scs, IsPlainCore sc.core) {k : Nat} (hk : scs.length ≤ k)
    (rest : Bytes) :
    items (textItem room) 93 k acc (Bytes.join [44] (scs.map Scalar.text) ++
        93 :: rest) = some (acc', rest) := by
  refine items_of_chain rfl (by decide) hchain ?_ hne hk rest
  rintro sc hsc acc acc' tail ⟨hlexical, x, rfl, hport⟩ htail
  have htext :
      readString room (sc.text ++ tail) = some (x, sc.after ++ tail) :=
    (hport (hplain sc hsc)).read_text hlexical room htail.breaks
  refine ⟨sc.after ++ tail, ?_, skipSpace_append hlexical.after tail⟩
  rw [textItem, htext]
  rfl

theorem textList_array (old : Option (List Bytes)) (t : Bytes) :
    textList room old (91 :: t) = (token t).bind fun r =>
      if r.1 = 93 then some (some [], r.2)
      else (items (textItem room) 93 room.length [] t).map fun r =>
      (some r.1.reverse, r.2) := by
  rw [textList, token_cons rfl]
  rfl

theorem textList_append {blank : Bytes} (hblank : IsBlank blank)
    (old : Option (List Bytes)) (s : Bytes) :
    textList room old (blank ++ s) = textList room old s := by
  unfold textList
  rw [token_append hblank]

theorem portable_null_texts (old : Option (List Bytes)) :
    Portable textList (utf8 "null") old none := by
  intro room blank tail hblank _
  rw [textList_append hblank, textList, token_null]
  simp [literal_append]

/-- A list of plain texts is read wherever it stands. -/
theorem settles_texts {before inner after : Bytes} {scs : List Scalar}
    (hlexical : Doc.Lexical (.array before inner (scs.map .scalar) after))
    (hchain : Chain TakesText [] scs acc)
    (hplain : ∀ sc ∈ scs, IsPlainCore sc.core) (old : Option (List Bytes)) :
    Settles textList (.array before inner (scs.map .scalar) after) old
        (some acc.reverse) := by
  intro room tail _ hlength _
  have htexts : (scs.map Doc.scalar).map Doc.text = scs.map Scalar.text := by
    rw [List.map_map]
    rfl
  cases hlexical with
  | array hbefore hinner hafter hempty _ =>
    refine ⟨after ++ tail, ?_, skipSpace_append hafter tail⟩
    rw [Doc.text, Doc.texts_eq, htexts] at hlength ⊢
    obtain ⟨hcount, -⟩ := bounds_of_content hlength
    simp only [List.append_assoc, List.cons_append, textList_append hbefore,
      textList_array]
    cases scs with
    | nil =>
      cases hchain
      simp [Bytes.join, token_append hinner,
        token_cons (show isSpace 93 = false from rfl)]
    | cons sc scs =>
      obtain rfl : inner = [] := by
        by_contra hne
        cases hempty hne
      have hfirst :=
        hchain.forall_mem (fun _ _ _ h => h.1) sc List.mem_cons_self
      obtain ⟨b, r, htoken, hb⟩ := hfirst.token_text
        (follow (scs.map Scalar.text) (93 :: (after ++ tail)))
      have hopen : b ≠ 93 := by
        rintro rfl
        rcases hb with hb | hb <;> cases hb
      rw [List.nil_append,
        textItems_join (List.cons_ne_nil sc scs) hchain hplain hcount,
        List.map_cons, join_cons_append, htoken]
      simp [hopen]

/-- Nothing can be changed in a list of texts, so it is enough that it is
read. -/
theorem overlay_texts {before inner after : Bytes} {scs : List Scalar}
    (hbefore : IsBlank before) (hinner : IsBlank inner)
    (hafter : IsBlank after) (hempty : inner ≠ [] → scs = [])
    (hchain : Chain TakesText [] scs acc) (old : Option (List Bytes)) :
    Overlay .texts textList .texts old (some acc.reverse)
        (.array before inner (scs.map .scalar) after) := by
  have hlexical :
      Doc.Lexical (.array before inner (scs.map .scalar) after) := by
    refine .array hbefore hinner hafter (fun hne => by rw [hempty hne]; rfl) ?_
    intro v hv
    obtain ⟨sc, hsc, rfl⟩ := List.mem_map.mp hv
    exact .scalar (hchain.forall_mem (fun _ _ _ h => h.1) sc hsc)
  refine ⟨hlexical, ?_, ?_⟩
  · intro path hnames
    cases path with
    | nil => exact absurd trivial hnames
    | cons name path => rfl
  · intro _ hsteady e he
    obtain rfl := he.eq_of_fixed (by simp [Doc.kind]) (by simp)
    refine settles_texts hlexical hchain ?_ old
    cases hsteady with
    | texts hitems =>
      intro sc hsc
      cases hitems _ (List.mem_map_of_mem hsc) with
      | text h => exact h
      | scalar h => cases h

theorem Doc.textArray_text (before inner : Bytes) (scs : List Scalar)
    (rest : Bytes) :
    (Doc.array before inner (scs.map .scalar) (rest.takeWhile isSpace)).text ++
        skipSpace rest =
      before ++ 91 ::
      (inner ++ (Bytes.join [44] (scs.map Scalar.text) ++ 93 :: rest)) := by
  rw [Doc.array_text, List.map_map]
  rfl

theorem overlays_texts : Overlays .texts textList .texts := by
  intro room old new s rest h hrest
  obtain ⟨⟨c, t⟩, htoken, hvalue⟩ := Option.bind_eq_some_iff.mp h
  obtain ⟨before, hbefore, rfl, -⟩ := exists_blank_of_token htoken
  dsimp only at hvalue
  split at hvalue
  · rename_i hc
    subst hc
    obtain ⟨r, hr, heq⟩ := Option.map_eq_some_iff.mp hvalue
    cases heq
    rw [literal_eq_some.mp hr]
    obtain ⟨sc, hsc, hcore, htext⟩ := exists_scalar hbefore isCore_null rest
    refine ⟨.scalar sc, Portable.overlay hsc (fun _ _ => rfl) fun _ => ?_,
      htext⟩
    rw [hcore]
    exact portable_null_texts old
  split at hvalue
  · rename_i hc
    subst hc
    obtain ⟨⟨e, u⟩, hopen, hitems⟩ := Option.bind_eq_some_iff.mp hvalue
    dsimp only at hitems
    split at hitems
    · rename_i he
      subst he
      cases hitems
      obtain ⟨inner, hinner, rfl, -⟩ := exists_blank_of_token hopen
      exact ⟨_, overlay_texts hbefore hinner (isBlank_takeWhile rest)
        (fun _ => rfl) (.nil []) old,
        (Doc.textArray_text before inner [] rest).symm⟩
    · obtain ⟨⟨acc, r⟩, hr, heq⟩ := Option.map_eq_some_iff.mp hitems
      cases heq
      obtain ⟨scs, -, hchain, rfl⟩ := textItems_outline hr
      exact ⟨_, overlay_texts hbefore isBlank_nil (isBlank_takeWhile r)
        (fun hne => absurd rfl hne) hchain old,
        (Doc.textArray_text before [] scs r).symm⟩
  · cases hvalue

end TextLists

end Json
end TickRelay
