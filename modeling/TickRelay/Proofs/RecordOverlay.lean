import TickRelay.Proofs.RearrangedTrees

/-!
# Records overlaid by objects

A record is read over an older one, member by member: those that are named
change their fields, and the others stay.

**Algorithm.** A `Layout` lists the fields of a record with how each of them is
read. Two fields do not disturb each other, so members of different fields may
be exchanged (`Link.swap`), and with them all the members of an object may be
put in any order.

**Results.** `Layout.overlays`: a record overlays an older one as its fields
do.
-/

namespace TickRelay
namespace Json

open Config (Setting)

section Chains

variable {σ μ : Type} {link : σ → μ → σ → Prop} {st mid st' : σ}
  {front back ms ms' : List μ}

theorem Chain.split (h : Chain link st (front ++ back) st') :
    ∃ mid, Chain link st front mid ∧ Chain link mid back st' := by
  induction front generalizing st with
  | nil => exact ⟨st, .nil st, h⟩
  | cons m front ih =>
    cases h with
    | cons hm hrest =>
      obtain ⟨mid, hfront, hback⟩ := ih hrest
      exact ⟨mid, .cons hm hfront, hback⟩

theorem Chain.append (hfront : Chain link st front mid)
    (hback : Chain link mid back st') : Chain link st (front ++ back) st' := by
  induction hfront with
  | nil => exact hback
  | cons hm _ ih => exact .cons hm (ih hback)

theorem Chain.imp {link' : σ → μ → σ → Prop} (h : Chain link st ms st')
    (himp : ∀ m ∈ ms, ∀ st mid, link st m mid → link' st m mid) :
    Chain link' st ms st' := by
  induction h with
  | nil st => exact .nil st
  | cons hm _ ih =>
    rw [List.forall_mem_cons] at himp
    exact .cons (himp.1 _ _ hm) (ih himp.2)

/-- Items that may be exchanged two by two may be put in any order. -/
theorem Chain.perm (R : μ → μ → Prop) (hsymm : ∀ {m n : μ}, R m n → R n m)
    (hswap : ∀ {m n : μ} {st mid st' : σ}, R m n → link st m mid →
      link mid n st' → ∃ mid', link st n mid' ∧ link mid' m st')
    (hperm : ms.Perm ms') (hpair : ms.Pairwise R) (h : Chain link st ms st') :
    Chain link st ms' st' := by
  induction hperm generalizing st with
  | nil => exact h
  | cons m _ ih =>
    cases h with
    | cons hm hrest =>
      exact .cons hm (ih (List.pairwise_cons.mp hpair).2 hrest)
  | swap n m ms =>
    cases h with
    | cons hm hrest =>
      cases hrest with
      | cons hn hrest =>
        have hmn := (List.pairwise_cons.mp hpair).1 n List.mem_cons_self
        obtain ⟨mid', hn', hm'⟩ := hswap hmn hm hn
        exact .cons hn' (.cons hm' hrest)
  | trans hfirst _ ih ih' =>
    exact ih' (hfirst.pairwise hpair hsymm) (ih hpair h)

end Chains

/-- How values of a type are read, and the settings that they are seen as. -/
structure Reading (α : Type) where
  read : ValueReader α
  shape : Shape
  view : α → Setting
  overlays : Overlays shape read view

namespace Reading

def text : Reading Bytes := ⟨Json.text, .text, .text, overlays_text⟩

def texts : Reading (Option (List Bytes)) :=
  ⟨textList, .texts, .texts, overlays_texts⟩

def integer : Reading Int64 :=
  ⟨Json.integer, .integer, .integer, overlays_integer⟩

def number : Reading Binary64 := ⟨float, .number, .number, overlays_number⟩

def flag : Reading Bool := ⟨Json.flag, .flag, .flag, overlays_flag⟩

end Reading

/-- A field of a record. -/
structure Field (σ : Type) where
  name : String
  {α : Type}
  get : σ → α
  set : σ → α → σ
  reading : Reading α
  get_set : ∀ st x, get (set st x) = x

namespace Field

variable {σ : Type} {f g : Field σ}

def member (f : Field σ) : Member σ := .of f.name f.get f.set f.reading.read

/-- Two fields do not disturb each other. -/
structure Apart (f g : Field σ) : Prop where
  get_left : ∀ st x, g.get (f.set st x) = g.get st
  get_right : ∀ st y, f.get (g.set st y) = f.get st
  comm : ∀ st x y, f.set (g.set st y) x = g.set (f.set st x) y

theorem Apart.symm (h : f.Apart g) : g.Apart f :=
  ⟨h.get_right, h.get_left, fun st y x => (h.comm st x y).symm⟩

instance : Std.Symm (Apart : Field σ → Field σ → Prop) := ⟨fun _ _ h => h.symm⟩

/-- A field by its name, its place in the record and how it is read. -/
def of {α : Type} (name : String) (get : σ → α) (set : σ → α → σ)
    (reading : Reading α)
    (get_set : ∀ st x, get (set st x) = x := by intros; rfl) : Field σ :=
  ⟨name, get, set, reading, get_set⟩

end Field

/-- A record that is read field by field. -/
structure Layout (σ : Type) where
  strict : Bool := false
  fields : List (Field σ)
  apart : fields.Pairwise Field.Apart := by
    repeat' first
      | exact List.Pairwise.nil | refine List.Pairwise.cons ?_ ?_
      | exact fun _ h => absurd h List.not_mem_nil
      | refine List.forall_mem_cons.mpr ⟨?_, ?_⟩
      | exact ⟨fun _ _ => rfl, fun _ _ => rfl, fun _ _ _ => rfl⟩

namespace Layout

variable {σ : Type} (L : Layout σ)

def rule : NameRule := .ofStrict L.strict

def reader : ValueReader σ := record L.rule (L.fields.map Field.member)

def shape : Shape :=
  .group L.strict (L.fields.map fun f => (f.name, f.reading.shape))

def view (st : σ) : Setting :=
  .group (L.fields.map fun f => (f.name, f.reading.view (f.get st)))

/-- The field that a name selects. -/
def field? (key : Bytes) : Option (Field σ) :=
  L.fields.find? fun f => L.rule.fold key == (utf8 f.name).map Bytes.lower

variable {L} {key : Bytes} {f g : Field σ} {st mid st' : σ}

theorem select_member (key : Bytes) :
    select L.rule (L.fields.map Field.member) key =
      (L.field? key).map Field.member := by
  rw [select, List.find?_map, field?]
  rfl

theorem child_shape (key : Bytes) :
    L.shape.child key =
      ((L.field? key).map (·.reading.shape)).getD .unread := by
  rw [shape, Shape.child, List.find?_map, Option.map_map, field?]
  rfl

theorem field?_of_unknown (h : L.shape.knows key = false) :
    L.field? key = none := by
  rw [field?, List.find?_eq_none]
  intro f hf hkey
  rw [shape, Shape.knows, List.any_map, List.any_eq_false] at h
  exact h f hf hkey

theorem fold_of_field? (h : L.field? key = some f) :
    f ∈ L.fields ∧ L.rule.fold key = (utf8 f.name).map Bytes.lower := by
  have hkey := List.find?_some h
  exact ⟨List.mem_of_find?_eq_some h, eq_of_beq hkey⟩

/-- Setting one field does not disturb another. -/
theorem get_set_of_ne (hf : f ∈ L.fields) (hg : g ∈ L.fields) (hne : f ≠ g)
    (st : σ) (x : f.α) : g.get (f.set st x) = g.get st :=
  (L.apart.forall hf hg hne).get_left st x

theorem at?_view (st : σ) (name : String) (path : List String) :
    (L.view st).at? (name :: path) =
      (L.fields.find? (name == ·.name)).bind fun f =>
      (f.reading.view (f.get st)).at? path := by
  rw [view, Setting.at?]
  induction L.fields with
  | nil => rfl
  | cons f fs ih =>
    rw [List.map_cons, List.lookup_cons, List.find?_cons]
    cases hname : name == f.name with
    | true => rfl
    | false => exact ih

section Reading

/-- What a member does to a record. -/
inductive Reads (L : Layout σ) : σ → Scalar × Doc → σ → Prop
  | field {st : σ} {n : Scalar} {v : Doc} {f : Field σ} {x : f.α}
      (hf : L.field? n.key = some f)
      (h : Overlay f.reading.shape f.reading.read f.reading.view
        (f.get st) x v) : Reads L st (n, v) (f.set st x)
  | unread {st : σ} {n : Scalar} {v : Doc} (hf : L.field? n.key = none)
      (hv : v.Lexical) : Reads L st (n, v) st

/-- A member changes at most the setting that it names. -/
theorem Reads.frame {m : Scalar × Doc} (h : L.Reads st m mid) {name : String}
    {path : List String}
    (hnames : ¬(L.shape.spells m.1.key name = true ∧
      Names path (L.shape.child m.1.key) m.2)) :
    (L.view mid).at? (name :: path) = (L.view st).at? (name :: path) := by
  cases h with
  | unread => rfl
  | @field n v f x hf hv =>
    obtain ⟨hmem, hfold⟩ := fold_of_field? hf
    rw [at?_view, at?_view]
    cases hfind : L.fields.find? (name == ·.name) with
    | none => rfl
    | some g =>
      have hname := List.find?_some hfind
      rw [Option.bind_some, Option.bind_some]
      by_cases hfg : f = g
      · subst hfg
        rw [f.get_set]
        refine hv.frame path fun hnamed => hnames ⟨?_, ?_⟩
        · rw [eq_of_beq hname]
          exact beq_iff_eq.mpr hfold
        · rw [child_shape, hf]
          exact hnamed
      · rw [get_set_of_ne hmem (List.mem_of_find?_eq_some hfind) hfg]

/-- What no member names stays. -/
theorem frame_of_chain {before inner after : Bytes} {ms : List (Scalar × Doc)}
    (h : Chain L.Reads st ms st') {path : List String}
    (hnames : ¬Names path L.shape (.object before inner ms after)) :
    (L.view st').at? path = (L.view st).at? path := by
  cases path with
  | nil => exact absurd trivial hnames
  | cons name path =>
    induction h with
    | nil => rfl
    | @cons st mid st' m ms hread _ ih =>
      have hrest :
          ¬Names (name :: path) L.shape (.object before inner ms after) := by
        rintro ⟨m', hm', hnamed⟩
        exact hnames ⟨m', List.mem_cons_of_mem m hm', hnamed⟩
      rw [ih hrest]
      exact hread.frame fun hnamed => hnames ⟨m, List.mem_cons_self, hnamed⟩

end Reading

section Rearranging

/-- What a member does to a record wherever it stands, and whatever it is
rearranged to. -/
inductive Link (L : Layout σ) : σ → Scalar × Doc → σ → Prop
  | field {st : σ} {n : Scalar} {v : Doc} {f : Field σ} {x : f.α}
      (hf : L.field? n.key = some f)
      (h : Holds f.reading.shape f.reading.read v (f.get st) x) :
      Link L st (n, v) (f.set st x)
  | unread {st : σ} {n : Scalar} {v : Doc} (hf : L.field? n.key = none)
      (hv : v.Lexical) (hskip : v.Skippable) : Link L st (n, v) st

/-- Two names do not select the same field. -/
def Separate (L : Layout σ) (m n : Scalar) : Prop :=
  ∀ f, L.field? m.key = some f → L.field? n.key ≠ some f

instance : Std.Symm L.Separate := ⟨fun _ _ h f hn hm => h f hm hn⟩

/-- Members of different fields may be exchanged. -/
theorem Link.swap {m n : Scalar × Doc} (hm : L.Link st m mid)
    (hn : L.Link mid n st') (h : L.Separate m.1 n.1) :
    ∃ mid', L.Link st n mid' ∧ L.Link mid' m st' := by
  cases hm with
  | unread hf hv hskip => exact ⟨st', hn, .unread hf hv hskip⟩
  | @field m v f x hf hx =>
    cases hn with
    | unread hg hv hskip => exact ⟨st, .unread hg hv hskip, .field hf hx⟩
    | @field n w g y hg hy =>
      have hne : f ≠ g := by
        rintro rfl
        exact h f hf hg
      -- Fields apart: neither sees what was written to the other, and the
      -- writes commute.
      have hapart :=
        L.apart.forall (fold_of_field? hf).1 (fold_of_field? hg).1 hne
      rw [hapart.get_left] at hy
      refine ⟨g.set st y, .field hg hy, ?_⟩
      rw [← hapart.comm]
      refine .field hf ?_
      rw [hapart.get_right]
      exact hx

/-- An object that is read in this way. -/
structure Arranged (L : Layout σ) (st : σ) (d : Doc) (st' : σ) : Prop where
  lexical : d.Lexical
  kind : d.kind = .object
  names : ∀ m ∈ d.members, ReadsName L.rule.read m.1
  separate : (d.members.map (·.1)).Pairwise L.Separate
  chain : Chain L.Link st d.members st'

theorem readsName_rule {n : Scalar} (hn : n.IsName) :
    ReadsName L.rule.read n := by
  have hread := readsName_of_plain hn.lexical hn.core.isPlainName
  unfold rule NameRule.ofStrict
  split
  · exact hread.1
  · exact hread.2

/-- One change leaves a record as it is read. -/
theorem Arranged.step {d e : Doc} (h : L.Arranged st d st')
    (hstep : Doc.Step L.shape d e) : L.Arranged st e st' := by
  obtain ⟨hlexical, hkind, hnames, hseparate, hchain⟩ := h
  have hlexical' := hstep.lexical hlexical
  -- The shape of a layout is no variable, which the cases on the step need.
  generalize hsh : L.shape = sh at hstep
  cases hstep with
  | reorder hperm =>
    refine ⟨hlexical', rfl, fun m hm => hnames m (hperm.mem_iff.mpr hm),
      ?_, ?_⟩
    · exact (hperm.map _).pairwise hseparate symm
    · exact hchain.perm (fun m n => L.Separate m.1 n.1) (fun h => symm h)
        (fun h hm hn => hm.swap hn h) hperm (List.pairwise_map.mp hseparate)
  | insert _ hunknown hn hv =>
    subst hsh
    have hfield := field?_of_unknown hunknown
    refine ⟨hlexical', rfl, forall_mem_middle.mpr ⟨readsName_rule hn, hnames⟩,
      ?_, ?_⟩
    · rw [Doc.members, List.map_append] at hseparate ⊢
      rw [List.map_cons, List.pairwise_middle symm]
      refine List.pairwise_cons.mpr ⟨fun m _ f hf => ?_, hseparate⟩
      rw [hfield] at hf
      cases hf
    · obtain ⟨mid, hfront, hback⟩ := hchain.split
      exact hfront.append
        (.cons (.unread hfield hv.lexical hv.skippable) hback)
  | member _ hvalue =>
    subst hsh
    refine ⟨hlexical', rfl, ?_, ?_, ?_⟩
    · rw [Doc.members, forall_mem_middle] at hnames ⊢
      exact hnames
    · simpa [Doc.members] using hseparate
    · obtain ⟨mid, hfront, hback⟩ := hchain.split
      cases hback with
      | cons hlink hback =>
        refine hfront.append (.cons ?_ hback)
        rw [child_shape] at hvalue
        cases hlink with
        | field hf hx =>
          rw [hf] at hvalue
          exact .field hf (hx.step hvalue)
        | unread hf hv hskip =>
          rw [hf] at hvalue
          exact .unread hf (hvalue.lexical hv) (hvalue.skippable rfl hskip)
  | item => cases hkind

theorem record_append {rule : NameRule} {members : List (Member σ)}
    {room : Room} {blank : Bytes} (hblank : IsBlank blank) (st : σ)
    (s : Bytes) :
    record rule members room st (blank ++ s) =
      record rule members room st s := by
  unfold record
  rw [token_append hblank]

theorem record_object {rule : NameRule} {members : List (Member σ)}
    {room : Room} (st : σ) (t : Bytes) :
    record rule members room st (123 :: t) = (token t).bind fun r =>
      if r.1 = 125 then some (st, r.2) else room.deeper?.bind fun inner =>
      items (readMember rule members inner) 125 room.length st t := by
  rw [record, token_cons rfl]
  rfl

/-- A member is read wherever it stands. -/
theorem Link.readMember {m : Scalar × Doc} {room : Room} {tail : Bytes}
    (h : L.Link st m mid) (hname : ReadsName L.rule.read m.1)
    (hdepth : m.2.depth ≤ room.depth) (hlength : m.2.text.length ≤ room.length)
    (htail : Closes tail) :
    ∃ rest, readMember L.rule (L.fields.map Field.member) room st
        (Doc.memberText m ++ tail) =
      some (mid, rest) ∧ skipSpace rest = skipSpace tail := by
  rw [Json.readMember, Doc.memberText, List.append_assoc,
    List.cons_append, hname]
  simp only [Option.bind_eq_bind, Option.bind_some, select_member]
  cases h with
  | @field n v f x hf hx =>
    obtain ⟨rest, hread, hspace⟩ :=
      hx.settles room tail hdepth hlength fun _ => htail.breaks
    refine ⟨rest, ?_, hspace⟩
    simp only [hf, Option.map_some, Field.member, Member.of, hread]
  | unread hf hv hskip =>
    obtain ⟨rest, hread, hspace⟩ :=
      skipValue_text hv hskip hdepth hlength fun _ => htail.breaks
    refine ⟨rest, ?_, hspace⟩
    simp only [hf, Option.map_none, hread, Option.map_some]

theorem readMembers_join {room : Room} {ms : List (Scalar × Doc)}
    (hne : ms ≠ []) (hchain : Chain L.Link st ms st')
    (hnames : ∀ m ∈ ms, ReadsName L.rule.read m.1)
    (hdepth : ∀ m ∈ ms, m.2.depth ≤ room.depth)
    (hlength : ∀ m ∈ ms, m.2.text.length ≤ room.length) {k : Nat}
    (hk : ms.length ≤ k) (rest : Bytes) :
    items (readMember L.rule (L.fields.map Field.member) room) 125 k st
        (Bytes.join [44] (ms.map Doc.memberText) ++ 125 :: rest) =
      some (st', rest) := by
  refine items_of_chain rfl (by decide) hchain ?_ hne hk rest
  intro m hm st mid tail hlink htail
  exact hlink.readMember (hnames m hm) (hdepth m hm) (hlength m hm) htail

theorem exists_deeper (room : Room) (h : 0 < room.depth) :
    ∃ inner, room.deeper? = some inner ∧ inner.length = room.length ∧
      inner.depth + 1 = room.depth := by
  unfold Room.deeper?
  split
  · rename_i hzero
    omega
  · rename_i depth hsucc
    exact ⟨_, rfl, rfl, hsucc.symm⟩

theorem Arranged.settles {d : Doc} (h : L.Arranged st d st') :
    Settles L.reader d st st' := by
  obtain ⟨hlexical, hkind, hnames, -, hchain⟩ := h
  intro room tail hdepth hlength _
  cases hlexical with
  | scalar => cases hkind
  | array => cases hkind
  | @object before inner after ms hbefore hinner hafter hempty hlex _ =>
    refine ⟨after ++ tail, ?_, skipSpace_append hafter tail⟩
    rw [Doc.text, Doc.memberTexts_eq] at hlength ⊢
    rw [Doc.depth] at hdepth
    obtain ⟨hcount, hbound⟩ := bounds_of_content hlength
    simp only [reader, List.append_assoc, List.cons_append,
      record_append hbefore, record_object]
    cases ms with
    | nil =>
      cases hchain
      simp [Bytes.join, token_append hinner,
        token_cons (show isSpace 125 = false from rfl)]
    | cons m ms =>
      obtain rfl : inner = [] := by
        by_contra hne
        cases hempty hne
      obtain ⟨deeper, hdeeper, hsame, hless⟩ := exists_deeper room (by omega)
      have hdepths : ∀ n ∈ m :: ms, n.2.depth ≤ deeper.depth := by
        intro n hn
        have hle := Doc.depth_le_memberDepths hn
        omega
      have hlengths : ∀ n ∈ m :: ms, n.2.text.length ≤ deeper.length := by
        intro n hn
        rw [hsame]
        exact Doc.length_value_le (hbound n hn)
      obtain ⟨b, r, htoken, hb⟩ :=
        (hlex m List.mem_cons_self).token_text
          (58 :: (m.2.text ++ follow (ms.map Doc.memberText)
            (125 :: (after ++ tail))))
      have hopen : b ≠ 125 := by
        rintro rfl
        rcases hb with hb | hb <;> cases hb
      have hread :=
        readMembers_join (List.cons_ne_nil m ms) hchain hnames hdepths hlengths
          hcount (after ++ tail)
      rw [List.nil_append, hdeeper, Option.bind_some, hread, List.map_cons,
        join_cons_append, Doc.memberText, List.append_assoc,
        List.cons_append, htoken]
      simp [hopen]

/-- Any number of changes leave a record as it is read. -/
theorem Arranged.holds {d : Doc} (h : L.Arranged st d st') :
    Holds L.shape L.reader d st st' := by
  intro e he
  refine Arranged.settles ?_
  induction he with
  | refl => exact h
  | tail _ hstep ih => exact ih.step hstep

end Rearranging

section Outline

variable {room : Room} {s rest : Bytes}

theorem takesName_rule (strict : Bool) :
    TakesName (NameRule.ofStrict strict).read fun core => strict = true →
    IsPlainCore core := by
  cases strict with
  | true =>
    intro room s x rest h
    obtain ⟨before, core, hbefore, hcore, hs, hx, hread⟩ :=
      takesName_string room s x rest h
    exact ⟨before, core, hbefore, hcore, hs, hx,
      fun hplain => hread (hplain rfl)⟩
  | false =>
    intro room s x rest h
    obtain ⟨before, core, hbefore, hcore, hs, hx, hread⟩ :=
      takesName_loose room s x rest h
    exact ⟨before, core, hbefore, hcore, hs, hx, fun _ => hread trivial⟩

/-- A member that was read, with its name. -/
def TakesMember (L : Layout σ) (st : σ) (m : Scalar × Doc) (mid : σ) : Prop :=
  m.1.Lexical ∧
    ((L.strict = true → IsPlainCore m.1.core) → ReadsName L.rule.read m.1) ∧
    L.Reads st m mid

theorem readMember_outline
    (h : readMember L.rule (L.fields.map Field.member) room st s =
      some (mid, rest))
    (hrest : Closes (skipSpace rest)) :
    ∃ m, L.TakesMember st m mid ∧ s = Doc.memberText m ++ skipSpace rest := by
  obtain ⟨⟨key, t⟩, hname, hvalue⟩ := Option.bind_eq_some_iff.mp h
  obtain ⟨n, hn, rfl, rfl, hread⟩ := (takesName_rule L.strict).outline hname
  dsimp only at hvalue
  rw [select_member] at hvalue
  cases hf : L.field? n.key with
  | none =>
    rw [hf] at hvalue
    obtain ⟨r, hr, heq⟩ := Option.map_eq_some_iff.mp hvalue
    cases heq
    obtain ⟨v, hv, rfl⟩ := skipValue_outline hr
    refine ⟨(n, v), ⟨hn, hread, .unread hf hv⟩, ?_⟩
    rw [Doc.memberText, List.append_assoc, List.cons_append]
  | some f =>
    rw [hf] at hvalue
    obtain ⟨⟨x, r⟩, hr, heq⟩ := Option.map_eq_some_iff.mp hvalue
    cases heq
    obtain ⟨v, hv, rfl⟩ := f.reading.overlays _ _ _ _ _ hr hrest
    refine ⟨(n, v), ⟨hn, hread, .field hf hv⟩, ?_⟩
    rw [Doc.memberText, List.append_assoc, List.cons_append]

theorem Reads.lexical {m : Scalar × Doc} (h : L.Reads st m mid) :
    m.2.Lexical := by
  cases h with
  | field _ hv => exact hv.lexical
  | unread _ hv => exact hv

/-- A member that was read, and in which nothing depends on where it stands. -/
theorem Reads.link {m : Scalar × Doc} (h : L.Reads st m mid)
    (hdistinct : m.2.Distinct (L.shape.child m.1.key))
    (hsteady : m.2.Steady (L.shape.child m.1.key)) : L.Link st m mid := by
  rw [child_shape] at hdistinct hsteady
  cases h with
  | field hf hv =>
    rw [hf] at hdistinct hsteady
    exact .field hf (hv.holds hdistinct hsteady)
  | unread hf hv =>
    rw [hf] at hsteady
    refine .unread hf hv ?_
    cases hsteady with
    | unread hskip => exact hskip
    | scalar h => cases h

theorem arranged_of_chain {before inner after : Bytes}
    {ms : List (Scalar × Doc)}
    (hlexical : Doc.Lexical (.object before inner ms after))
    (hchain : Chain L.TakesMember st ms st')
    (hdistinct : Doc.Distinct L.shape (.object before inner ms after))
    (hsteady : Doc.Steady L.shape (.object before inner ms after)) :
    L.Arranged st (.object before inner ms after) st' := by
  have hread := hchain.forall_mem
    (P := fun m => (L.strict = true → IsPlainCore m.1.core) →
      ReadsName L.rule.read m.1)
    fun _ _ _ h => h.2.1
  rw [shape] at hdistinct hsteady
  cases hsteady with
  | group hnames hsteady =>
    cases hdistinct with
    | other h => cases h rfl
    | group hkeys hdistinct =>
      refine ⟨hlexical, rfl,
        fun m hm => hread m hm fun hstrict => hnames hstrict m hm, ?_, ?_⟩
      · rw [Doc.members, List.pairwise_map]
        refine (List.pairwise_map.mp hkeys).imp fun hne f hf hg => hne ?_
        exact (fold_of_field? hf).2.trans (fold_of_field? hg).2.symm
      · exact hchain.imp fun m hm _ _ h =>
          h.2.2.link (hdistinct m hm) (hsteady m hm)

theorem overlay_object {before inner after : Bytes} {ms : List (Scalar × Doc)}
    (hbefore : IsBlank before) (hinner : IsBlank inner)
    (hafter : IsBlank after) (hempty : inner ≠ [] → ms = [])
    (hchain : Chain L.TakesMember st ms st') :
    Overlay L.shape L.reader L.view st st'
        (.object before inner ms after) := by
  have hlexical : Doc.Lexical (.object before inner ms after) :=
    .object hbefore hinner hafter hempty (hchain.forall_mem fun _ _ _ h => h.1)
      (hchain.forall_mem fun _ _ _ h => h.2.2.lexical)
  refine ⟨hlexical, fun path hnames => ?_, fun hdistinct hsteady => ?_⟩
  · exact frame_of_chain (hchain.imp fun _ _ _ _ h => h.2.2) hnames
  · exact (arranged_of_chain hlexical hchain hdistinct hsteady).holds

/-- An object that was read is a tree, whatever follows it. -/
theorem exists_object {t : Bytes} (h : L.reader room st s = some (st', rest))
    (htoken : token s = some (123, t)) :
    ∃ before inner ms,
      s = before ++ 123 ::
        (inner ++ (Bytes.join [44] (ms.map Doc.memberText) ++ 125 :: rest)) ∧
      ∀ after, IsBlank after →
      Overlay L.shape L.reader L.view st st'
        (.object before inner ms after) := by
  obtain ⟨before, hbefore, rfl, -⟩ := exists_blank_of_token htoken
  rw [reader, record_append hbefore, record_object] at h
  obtain ⟨⟨e, u⟩, hopen, hmembers⟩ := Option.bind_eq_some_iff.mp h
  dsimp only at hmembers
  split at hmembers
  · rename_i he
    subst he
    cases hmembers
    obtain ⟨inner, hinner, rfl, -⟩ := exists_blank_of_token hopen
    exact ⟨before, inner, [], rfl, fun after hafter =>
      overlay_object hbefore hinner hafter (fun _ => rfl) (.nil st)⟩
  · obtain ⟨deeper, -, hitems⟩ := Option.bind_eq_some_iff.mp hmembers
    obtain ⟨ms, -, hchain, rfl⟩ :=
      items_outline L.TakesMember Doc.memberText rfl
        (fun _ _ _ _ h hrest => readMember_outline h hrest) hitems
    exact ⟨before, [], ms, rfl, fun after hafter =>
      overlay_object hbefore isBlank_nil hafter
        (fun hne => absurd rfl hne) hchain⟩

theorem portable_null (st : σ) : Portable L.reader (utf8 "null") st st := by
  intro room blank tail hblank _
  rw [reader, record_append hblank, record, token_null]
  simp [literal_append]

/-- A record is overlaid by what is read. -/
theorem overlays (L : Layout σ) : Overlays L.shape L.reader L.view := by
  intro room st st' s rest h _
  have hrecord := h
  obtain ⟨⟨c, t⟩, htoken, hvalue⟩ := Option.bind_eq_some_iff.mp hrecord
  dsimp only at hvalue
  split at hvalue
  · rename_i hc
    subst hc
    obtain ⟨before, inner, ms, hs, hoverlay⟩ := exists_object h htoken
    exact ⟨_, hoverlay _ (isBlank_takeWhile rest),
      hs.trans (Doc.object_text before inner ms).symm⟩
  split at hvalue
  · rename_i hc
    subst hc
    obtain ⟨before, hbefore, rfl, -⟩ := exists_blank_of_token htoken
    obtain ⟨r, hr, heq⟩ := Option.map_eq_some_iff.mp hvalue
    cases heq
    rw [literal_eq_some.mp hr]
    obtain ⟨sc, hsc, hcore, htext⟩ := exists_scalar hbefore isCore_null rest
    refine ⟨.scalar sc, Portable.overlay hsc (fun _ _ => rfl) fun _ => ?_,
      htext⟩
    rw [hcore]
    exact portable_null st
  · cases hvalue

end Outline

/-- How the record itself is read. -/
def reading (L : Layout σ) : Reading σ :=
  ⟨L.reader, L.shape, L.view, L.overlays⟩

end Layout

end Json
end TickRelay
