import TickRelay.Proofs.Numerals
import TickRelay.Proofs.QuotedTexts

/-!
# Texts of JSON as trees

A reader of JSON overlays one value on another and keeps nothing of the text.
To speak of the members of a text, and to move them, the text is seen as a tree
that keeps every byte: words and quoted texts with the blanks around them,
arrays and objects.

**Results.** `Doc` is such a tree, `Doc.text` its text. `Doc.Lexical` trees are
those whose parts are what they seem, and `Doc.text_injective` says that a text
is the text of one of them at most.
-/

namespace TickRelay
namespace Json

/-- A byte of a number or a literal, or of anything else that is neither a
blank, a quote nor a mark. -/
def isWordByte (b : UInt8) : Bool :=
  !(isSpace b || b == 34 || b == 44 || b == 58 || b == 91 || b == 93 ||
    b == 123 || b == 125)

/-- A byte that follows a value in an array or an object. -/
def isClosing (b : UInt8) : Bool := b == 44 || b == 93 || b == 125

/-- A text of blanks. -/
def IsBlank (s : Bytes) : Prop := ∀ b ∈ s, isSpace b = true

/-- What stands between the quotes of a text: no quote that is not escaped, and
no backslash that escapes nothing. -/
inductive IsBody : Bytes → Prop
  | nil : IsBody []
  | plain {b : UInt8} {s : Bytes} (hquote : b ≠ 34) (hslash : b ≠ 92)
      (hs : IsBody s) : IsBody (b :: s)
  | escape {b : UInt8} {s : Bytes} (hs : IsBody s) : IsBody (92 :: b :: s)

/-- A word or a quoted text with the blanks around it. -/
structure Scalar where
  before : Bytes := []
  core : Bytes
  after : Bytes := []
  deriving DecidableEq

/-- A text of JSON. An array or an object without content may hold blanks, in
`inner`. -/
inductive Doc where
  | scalar (s : Scalar)
  | array (before inner : Bytes) (items : List Doc) (after : Bytes)
  | object (before inner : Bytes) (members : List (Scalar × Doc))
      (after : Bytes)

def Scalar.text (s : Scalar) : Bytes := s.before ++ (s.core ++ s.after)

namespace Doc

mutual

/-- The text of a tree. -/
def text : Doc → Bytes
  | .scalar s => s.text
  | .array before inner items after =>
    before ++ 91 :: (inner ++ (Bytes.join [44] (texts items) ++ 93 :: after))
  | .object before inner members after =>
    before ++ 123 ::
      (inner ++ (Bytes.join [44] (memberTexts members) ++ 125 :: after))

def texts : List Doc → List Bytes
  | [] => []
  | d :: ds => d.text :: texts ds

def memberTexts : List (Scalar × Doc) → List Bytes
  | [] => []
  | (n, v) :: ms => (n.text ++ 58 :: v.text) :: memberTexts ms

end

mutual

/-- The number of nested arrays and objects. -/
def depth : Doc → Nat
  | .scalar _ => 0
  | .array _ _ items _ => depths items + 1
  | .object _ _ members _ => memberDepths members + 1

def depths : List Doc → Nat
  | [] => 0
  | d :: ds => max d.depth (depths ds)

def memberDepths : List (Scalar × Doc) → Nat
  | [] => 0
  | (_, v) :: ms => max v.depth (memberDepths ms)

end

/-- The members of an object; anything else has none. -/
def members : Doc → List (Scalar × Doc)
  | .object _ _ members _ => members
  | _ => []

/-- A name, the colon and the value. -/
def memberText (m : Scalar × Doc) : Bytes := m.1.text ++ 58 :: m.2.text

theorem texts_eq (ds : List Doc) : texts ds = ds.map text := by
  induction ds with
  | nil => rfl
  | cons d ds ih => rw [texts, ih, List.map_cons]

theorem memberTexts_eq (ms : List (Scalar × Doc)) :
    memberTexts ms = ms.map memberText := by
  induction ms with
  | nil => rfl
  | cons m ms ih => rw [memberTexts, ih, List.map_cons, memberText]

theorem depth_le_depths {d : Doc} {ds : List Doc} (h : d ∈ ds) :
    d.depth ≤ depths ds := by
  induction ds with
  | nil => cases h
  | cons e ds ih =>
    rw [depths]
    rcases List.mem_cons.mp h with rfl | h
    · exact Nat.le_max_left _ _
    · exact Nat.le_trans (ih h) (Nat.le_max_right _ _)

theorem depth_le_memberDepths {m : Scalar × Doc} {ms : List (Scalar × Doc)}
    (h : m ∈ ms) : m.2.depth ≤ memberDepths ms := by
  induction ms with
  | nil => cases h
  | cons e ms ih =>
    rw [memberDepths]
    rcases List.mem_cons.mp h with rfl | h
    · exact Nat.le_max_left _ _
    · exact Nat.le_trans (ih h) (Nat.le_max_right _ _)

/-- What holds of a tree if it holds of its parts holds of every tree. -/
theorem induct {P : Doc → Prop} (hscalar : ∀ s, P (.scalar s))
    (harray : ∀ before inner items after, (∀ v ∈ items, P v) →
      P (.array before inner items after))
    (hobject : ∀ before inner members after, (∀ m ∈ members, P m.2) →
      P (.object before inner members after))
    (d : Doc) : P d := by
  refine @Doc.rec P (fun items => ∀ v ∈ items, P v)
    (fun members => ∀ m ∈ members, P m.2) (fun m => P m.2) hscalar harray
    hobject ?_ ?_ ?_ ?_ ?_ d
  · exact fun v hv => absurd hv List.not_mem_nil
  · exact fun v items hv hitems => List.forall_mem_cons.mpr ⟨hv, hitems⟩
  · exact fun m hm => absurd hm List.not_mem_nil
  · exact fun m members hm hmembers => List.forall_mem_cons.mpr ⟨hm, hmembers⟩
  · exact fun n v hv => hv

end Doc

/-- A word, or a text between quotes. -/
inductive IsCore : Bytes → Prop
  | word {w : Bytes} (hne : w ≠ []) (hw : ∀ b ∈ w, isWordByte b = true) :
      IsCore w
  | quoted {body : Bytes} (hbody : IsBody body) : IsCore (34 :: (body ++ [34]))

structure Scalar.Lexical (s : Scalar) : Prop where
  before : IsBlank s.before
  core : IsCore s.core
  after : IsBlank s.after

/-- A tree whose blanks, words and quoted texts are what they seem. -/
inductive Doc.Lexical : Doc → Prop
  | scalar {s : Scalar} (h : s.Lexical) : Lexical (.scalar s)
  | array {before inner after : Bytes} {items : List Doc}
      (hbefore : IsBlank before) (hinner : IsBlank inner)
      (hafter : IsBlank after) (hempty : inner ≠ [] → items = [])
      (hitems : ∀ v ∈ items, Lexical v) :
      Lexical (.array before inner items after)
  | object {before inner after : Bytes} {members : List (Scalar × Doc)}
      (hbefore : IsBlank before) (hinner : IsBlank inner)
      (hafter : IsBlank after) (hempty : inner ≠ [] → members = [])
      (hnames : ∀ m ∈ members, m.1.Lexical)
      (hvalues : ∀ m ∈ members, Lexical m.2) :
      Lexical (.object before inner members after)

section Blanks

variable {b : UInt8} {blank s : Bytes}

theorem skipSpace_append (h : IsBlank blank) (s : Bytes) :
    skipSpace (blank ++ s) = skipSpace s :=
  List.dropWhile_append_of_pos h

theorem token_append (h : IsBlank blank) (s : Bytes) :
    token (blank ++ s) = token s := by
  unfold token
  rw [skipSpace_append h]

theorem token_eq_some {t : Bytes} :
    token s = some (b, t) ↔ skipSpace s = b :: t := by
  unfold token
  split
  · rename_i hskip
    simp [hskip]
  · rename_i hskip
    simp [hskip]

/-- The blanks before a token. -/
theorem exists_blank_of_token {t : Bytes} (h : token s = some (b, t)) :
    ∃ blank, IsBlank blank ∧ s = blank ++ b :: t ∧ isSpace b = false := by
  rw [token_eq_some] at h
  refine ⟨s.takeWhile isSpace, fun c hc => List.mem_takeWhile_imp hc, ?_, ?_⟩
  · rw [← h]
    exact (List.takeWhile_append_dropWhile).symm
  · have hhead := List.head?_dropWhile_not isSpace s
    rw [show s.dropWhile isSpace = b :: t from h] at hhead
    simpa using hhead

end Blanks

section Bytes

variable {b : UInt8}

theorem not_space_of_word (h : isWordByte b = true) : isSpace b = false := by
  simp only [isWordByte, Bool.not_eq_true', Bool.or_eq_false_iff] at h
  exact h.1.1.1.1.1.1.1

theorem not_space_of_closing (h : isClosing b = true) : isSpace b = false := by
  simp only [isClosing, Bool.or_eq_true, beq_iff_eq] at h
  rcases h with (rfl | rfl) | rfl <;> rfl

theorem not_word_of_closing (h : isClosing b = true) :
    isWordByte b = false := by
  simp only [isClosing, Bool.or_eq_true, beq_iff_eq] at h
  rcases h with (rfl | rfl) | rfl <;> rfl

theorem not_word_of_space (h : isSpace b = true) : isWordByte b = false := by
  simp [isWordByte, h]

end Bytes

/-- A text that goes on with a mark that may follow a name or a value. -/
def Marked (s : Bytes) : Prop :=
  ∃ b t, s = b :: t ∧ (isClosing b = true ∨ b = 58)

/-- A text that goes on with a mark that may follow a value. -/
def Closes (s : Bytes) : Prop := ∃ b t, s = b :: t ∧ isClosing b = true

theorem Closes.marked {s : Bytes} (h : Closes s) : Marked s := by
  obtain ⟨b, t, rfl, hb⟩ := h
  exact ⟨b, t, rfl, .inl hb⟩

theorem Marked.head {s : Bytes} (h : Marked s) :
    ∀ b ∈ s.head?, isSpace b = false ∧ isWordByte b = false := by
  obtain ⟨c, t, rfl, hc⟩ := h
  intro b hb
  obtain rfl : c = b := Option.some.inj hb
  rcases hc with hc | rfl
  · exact ⟨not_space_of_closing hc, not_word_of_closing hc⟩
  · exact ⟨rfl, rfl⟩

theorem head_not_space {b : UInt8} (h : isSpace b = false) (s : Bytes) :
    ∀ c ∈ (b :: s).head?, isSpace c = false := by
  intro c hc
  obtain rfl : b = c := Option.some.inj hc
  exact h

section Unique

variable {t u : Bytes}

/-- Blanks are told from what follows them. -/
theorem blank_injective {blank blank' : Bytes} (h : IsBlank blank)
    (h' : IsBlank blank') (ht : ∀ b ∈ t.head?, isSpace b = false)
    (hu : ∀ b ∈ u.head?, isSpace b = false) (heq : blank ++ t = blank' ++ u) :
    blank = blank' ∧ t = u := by
  have hfront := congrArg (List.takeWhile isSpace) heq
  rw [takeWhile_span h ht, takeWhile_span h' hu] at hfront
  subst hfront
  exact ⟨rfl, List.append_cancel_left heq⟩

/-- The closing quote is the first one that is not escaped. -/
theorem body_injective {body body' : Bytes} (h : IsBody body)
    (h' : IsBody body') (heq : body ++ 34 :: t = body' ++ 34 :: u) :
    body = body' ∧ t = u := by
  induction h generalizing body' with
  | nil =>
    cases h' with
    | nil => exact ⟨rfl, (List.cons.inj heq).2⟩
    | plain hquote => exact absurd (List.cons.inj heq).1.symm hquote
    | escape => cases heq
  | plain hquote hslash _ ih =>
    cases h' with
    | nil => exact absurd (List.cons.inj heq).1 hquote
    | plain _ _ hs' =>
      obtain ⟨rfl, hrest⟩ := List.cons.inj heq
      obtain ⟨rfl, htu⟩ := ih hs' hrest
      exact ⟨rfl, htu⟩
    | escape => exact absurd (List.cons.inj heq).1 hslash
  | escape _ ih =>
    cases h' with
    | nil => cases heq
    | plain _ hslash => exact absurd (List.cons.inj heq).1.symm hslash
    | escape hs' =>
      obtain ⟨rfl, hrest⟩ := List.cons.inj (List.cons.inj heq).2
      obtain ⟨rfl, htu⟩ := ih hs' hrest
      exact ⟨rfl, htu⟩

theorem IsCore.head {core : Bytes} (h : IsCore core) :
    ∃ b rest, core = b :: rest ∧ (b = 34 ∨ isWordByte b = true) := by
  cases h with
  | word hne hw =>
    obtain ⟨b, rest, rfl⟩ := List.exists_cons_of_ne_nil hne
    exact ⟨b, rest, rfl, .inr (hw b List.mem_cons_self)⟩
  | quoted hbody => exact ⟨34, _, rfl, .inl rfl⟩

theorem IsCore.head_not_space {core : Bytes} (h : IsCore core) (t : Bytes) :
    ∀ b ∈ (core ++ t).head?, isSpace b = false := by
  obtain ⟨c, rest, rfl, hc⟩ := h.head
  refine Json.head_not_space ?_ (rest ++ t)
  rcases hc with rfl | hc
  · rfl
  · exact not_space_of_word hc

theorem head_after {after : Bytes} (h : IsBlank after) (ht : Marked t) :
    ∀ b ∈ (after ++ t).head?, isWordByte b = false := by
  intro b hb
  cases after with
  | nil => exact (ht.head b hb).2
  | cons c after =>
    obtain rfl : c = b := Option.some.inj hb
    exact not_word_of_space (h c List.mem_cons_self)

theorem core_injective {core core' : Bytes} (h : IsCore core)
    (h' : IsCore core') (ht : ∀ b ∈ t.head?, isWordByte b = false)
    (hu : ∀ b ∈ u.head?, isWordByte b = false) (heq : core ++ t = core' ++ u) :
    core = core' ∧ t = u := by
  have hsame := congrArg List.head? heq
  cases h with
  | word hne hw =>
    obtain ⟨b, w, rfl⟩ := List.exists_cons_of_ne_nil hne
    cases h' with
    | word _ hw' =>
      have hfront := congrArg (List.takeWhile isWordByte) heq
      rw [takeWhile_span hw ht, takeWhile_span hw' hu] at hfront
      subst hfront
      exact ⟨rfl, List.append_cancel_left heq⟩
    | quoted =>
      have hb := hw b List.mem_cons_self
      obtain rfl : b = 34 := Option.some.inj hsame
      cases hb
  | quoted hbody =>
    cases h' with
    | word hne hw =>
      obtain ⟨b, w, rfl⟩ := List.exists_cons_of_ne_nil hne
      have hb := hw b List.mem_cons_self
      obtain rfl : 34 = b := Option.some.inj hsame
      cases hb
    | quoted hbody' =>
      have hrest := (List.cons.inj heq).2
      simp only [List.append_assoc, List.append_eq, List.singleton_append]
        at hrest
      obtain ⟨rfl, htu⟩ := body_injective hbody hbody' hrest
      exact ⟨rfl, htu⟩

theorem scalar_injective {s s' : Scalar} (h : s.Lexical) (h' : s'.Lexical)
    (ht : Marked t) (hu : Marked u) (heq : s.text ++ t = s'.text ++ u) :
    s = s' ∧ t = u := by
  obtain ⟨before, core, after⟩ := s
  obtain ⟨before', core', after'⟩ := s'
  simp only [Scalar.text, List.append_assoc] at heq
  obtain ⟨rfl, heq⟩ :=
    blank_injective h.before h'.before (h.core.head_not_space _)
      (h'.core.head_not_space _) heq
  obtain ⟨rfl, heq⟩ := core_injective h.core h'.core (head_after h.after ht)
    (head_after h'.after hu) heq
  obtain ⟨rfl, htu⟩ :=
    blank_injective h.after h'.after (fun b hb => (ht.head b hb).1)
      (fun b hb => (hu.head b hb).1) heq
  exact ⟨rfl, htu⟩

/-- What follows an item of a list: a comma and the other items, or what closes
the list. -/
def follow (ss : List Bytes) (tail : Bytes) : Bytes :=
  if ss = [] then tail else 44 :: (Bytes.join [44] ss ++ tail)

theorem join_cons_append (s : Bytes) (ss : List Bytes) (tail : Bytes) :
    Bytes.join [44] (s :: ss) ++ tail = s ++ follow ss tail := by
  cases ss with
  | nil => rfl
  | cons r ss =>
    rw [Bytes.join, follow, if_neg (List.cons_ne_nil r ss), List.append_assoc,
      List.append_assoc]
    · rfl
    · exact List.cons_ne_nil r ss

theorem closes_follow (ss : List Bytes) {tail : Bytes} (h : Closes tail) :
    Closes (follow ss tail) := by
  unfold follow
  split
  · exact h
  · exact ⟨44, _, rfl, rfl⟩

/-- A list of items is the list of the same items, if each of them is told from
what follows it. -/
theorem join_injective {μ : Type} {text : μ → Bytes} {close : UInt8}
    (hclose : isClosing close = true) (hcomma : close ≠ 44) {xs ys : List μ}
    (hitem : ∀ x ∈ xs, ∀ y ∈ ys, ∀ t u, Closes t → Closes u →
      text x ++ t = text y ++ u → x = y ∧ t = u)
    (hxs : xs ≠ []) (hys : ys ≠ [])
    (heq : Bytes.join [44] (xs.map text) ++ close :: t =
      Bytes.join [44] (ys.map text) ++ close :: u) : xs = ys ∧ t = u := by
  induction xs generalizing ys with
  | nil => exact absurd rfl hxs
  | cons x xs ih =>
    obtain ⟨y, ys, rfl⟩ := List.exists_cons_of_ne_nil hys
    rw [List.map_cons, List.map_cons, join_cons_append,
      join_cons_append] at heq
    obtain ⟨rfl, hfollow⟩ :=
      hitem x List.mem_cons_self y List.mem_cons_self _ _
        (closes_follow _ ⟨close, t, rfl, hclose⟩)
        (closes_follow _ ⟨close, u, rfl, hclose⟩) heq
    unfold follow at hfollow
    cases xs with
    | nil =>
      cases ys with
      | nil => exact ⟨rfl, (List.cons.inj hfollow).2⟩
      | cons z ys => exact absurd (List.cons.inj hfollow).1 hcomma
    | cons w xs =>
      cases ys with
      | nil => exact absurd (List.cons.inj hfollow).1.symm hcomma
      | cons z ys =>
        have hrest : w :: xs = z :: ys ∧ t = u := by
          refine ih (fun a ha b hb => hitem a (List.mem_cons_of_mem _ ha) b
            (List.mem_cons_of_mem _ hb)) (List.cons_ne_nil w xs)
            (List.cons_ne_nil z ys) ?_
          exact (List.cons.inj hfollow).2
        exact ⟨congrArg (List.cons x) hrest.1, hrest.2⟩

/-- The same for a list that may be empty, with the blanks in it. -/
theorem content_injective {μ : Type} {text : μ → Bytes} {close : UInt8}
    (hclose : isClosing close = true) (hcomma : close ≠ 44)
    {inner inner' : Bytes} {xs ys : List μ} (hinner : IsBlank inner)
    (hinner' : IsBlank inner') (hempty : inner ≠ [] → xs = [])
    (hempty' : inner' ≠ [] → ys = [])
    (hlead : ∀ x, x ∈ xs ∨ x ∈ ys →
      ∀ t, ∃ b rest, token (text x ++ t) = some (b, rest) ∧ b ≠ close)
    (hitem : ∀ x ∈ xs, ∀ y ∈ ys, ∀ t u, Closes t → Closes u →
      text x ++ t = text y ++ u → x = y ∧ t = u)
    (heq : inner ++ (Bytes.join [44] (xs.map text) ++ close :: t) =
      inner' ++ (Bytes.join [44] (ys.map text) ++ close :: u)) :
    inner = inner' ∧ xs = ys ∧ t = u := by
  have hspace := not_space_of_closing hclose
  have htoken := congrArg token heq
  rw [token_append hinner, token_append hinner'] at htoken
  cases xs with
  | nil =>
    cases ys with
    | nil =>
      obtain ⟨rfl, hrest⟩ :=
        blank_injective hinner hinner' (head_not_space hspace t)
          (head_not_space hspace u) heq
      exact ⟨rfl, rfl, (List.cons.inj hrest).2⟩
    | cons y ys =>
      -- One text goes on with the closing mark, the other with an item.
      obtain ⟨b, rest, hb, hne⟩ :=
        hlead y (.inr List.mem_cons_self) (follow (ys.map text) (close :: u))
      rw [List.map_cons, join_cons_append, hb, List.map_nil, Bytes.join,
        List.nil_append, token_cons hspace] at htoken
      cases htoken
      exact absurd rfl hne
  | cons x xs =>
    obtain rfl : inner = [] := by
      by_contra hne
      cases hempty hne
    cases ys with
    | nil =>
      obtain ⟨b, rest, hb, hne⟩ :=
        hlead x (.inl List.mem_cons_self) (follow (xs.map text) (close :: t))
      rw [List.map_cons, join_cons_append, hb, List.map_nil, Bytes.join,
        List.nil_append, token_cons hspace] at htoken
      cases htoken
      exact absurd rfl hne
    | cons y ys =>
      obtain rfl : inner' = [] := by
        by_contra hne
        cases hempty' hne
      exact ⟨rfl, join_injective hclose hcomma hitem (List.cons_ne_nil x xs)
        (List.cons_ne_nil y ys) heq⟩

end Unique

/-- A scalar begins with a quote or with a byte of a word. -/
theorem Scalar.Lexical.token_text {s : Scalar} (h : s.Lexical) (t : Bytes) :
    ∃ b rest, token (s.text ++ t) = some (b, rest) ∧
      (b = 34 ∨ isWordByte b = true) := by
  obtain ⟨b, rest, hcore, hb⟩ := h.core.head
  have hspace : isSpace b = false := by
    rcases hb with rfl | hb
    · rfl
    · exact not_space_of_word hb
  refine ⟨b, rest ++ s.after ++ t, ?_, hb⟩
  rw [Scalar.text, List.append_assoc, token_append h.before, hcore,
    List.append_assoc, List.cons_append, token_cons hspace, List.append_assoc]

namespace Doc

variable {d e : Doc} {t u : Bytes}

/-- Whether a tree is an array or an object, and which. -/
inductive Kind where
  | scalar
  | array
  | object
  deriving DecidableEq

def kind : Doc → Kind
  | .scalar _ => .scalar
  | .array _ _ _ _ => .array
  | .object _ _ _ _ => .object

/-- The first byte that is no blank tells what a tree is, and closes
nothing. -/
theorem Lexical.token_text (h : d.Lexical) (t : Bytes) :
    ∃ b rest, token (d.text ++ t) = some (b, rest) ∧ isClosing b = false ∧
      (d.kind = .array ↔ b = 91) ∧ (d.kind = .object ↔ b = 123) := by
  cases h with
  | @scalar s hs =>
    obtain ⟨b, rest, htoken, hb⟩ := hs.token_text t
    refine ⟨b, rest, htoken, ?_⟩
    rcases hb with rfl | hb
    · simp [isClosing, kind]
    · simp only [isWordByte, Bool.not_eq_true', Bool.or_eq_false_iff,
        beq_eq_false_iff_ne] at hb
      simp [isClosing, kind, hb]
  | array hbefore =>
    rw [text, List.append_assoc, token_append hbefore, List.cons_append,
      token_cons rfl]
    exact ⟨91, _, rfl, by decide, by simp [kind], by simp [kind]⟩
  | object hbefore =>
    rw [text, List.append_assoc, token_append hbefore, List.cons_append,
      token_cons rfl]
    exact ⟨123, _, rfl, by decide, by simp [kind], by simp [kind]⟩

theorem kind_eq (hd : d.Lexical) (he : e.Lexical)
    (heq : d.text ++ t = e.text ++ u) : d.kind = e.kind := by
  obtain ⟨b, rest, hb, -, harray, hobject⟩ := hd.token_text t
  obtain ⟨c, rest', hc, -, harray', hobject'⟩ := he.token_text u
  rw [heq, hc] at hb
  cases hb
  have harrays := harray.trans harray'.symm
  have hobjects := hobject.trans hobject'.symm
  cases hdk : d.kind <;> cases hek : e.kind <;> simp_all

/-- The items of an array are told by its text, whatever follows it, if each of
them is. -/
theorem items_injective {before inner after before' inner' after' : Bytes}
    {vs vs' : List Doc} (hd : Lexical (.array before inner vs after))
    (he : Lexical (.array before' inner' vs' after'))
    (hvalue : ∀ v ∈ vs, ∀ e t u, v.Lexical → e.Lexical → Closes t → Closes u →
      v.text ++ t = e.text ++ u → v = e ∧ t = u)
    (heq : (Doc.array before inner vs after).text ++ t =
      (Doc.array before' inner' vs' after').text ++ u) :
    before = before' ∧ inner = inner' ∧ vs = vs' ∧
    after ++ t = after' ++ u := by
  cases hd with
  | array hbefore hinner hafter hempty hvs =>
    cases he with
    | array hbefore' hinner' hafter' hempty' hvs' =>
      simp only [text, texts_eq, List.append_assoc, List.cons_append] at heq
      obtain ⟨rfl, hrest⟩ :=
        blank_injective hbefore hbefore' (head_not_space rfl _)
          (head_not_space rfl _) heq
      have hlead : ∀ v, v ∈ vs ∨ v ∈ vs' → ∀ t, ∃ b rest,
          token (v.text ++ t) = some (b, rest) ∧ b ≠ 93 := by
        intro v hv t
        have hlexical : v.Lexical := hv.elim (hvs v) (hvs' v)
        obtain ⟨b, rest, htoken, hb, -⟩ := hlexical.token_text t
        refine ⟨b, rest, htoken, ?_⟩
        rintro rfl
        cases hb
      obtain ⟨rfl, rfl, hend⟩ :=
        content_injective rfl (by decide) hinner hinner' hempty hempty' hlead
          (fun v hv w hw t u => hvalue v hv w t u (hvs v hv) (hvs' w hw))
          (List.cons.inj hrest).2
      exact ⟨rfl, rfl, rfl, hend⟩

/-- The members of an object are told by its text, whatever follows it, if
their values are. -/
theorem members_injective {before inner after before' inner' after' : Bytes}
    {ms ms' : List (Scalar × Doc)}
    (hd : Lexical (.object before inner ms after))
    (he : Lexical (.object before' inner' ms' after'))
    (hvalue : ∀ m ∈ ms, ∀ e t u, m.2.Lexical → e.Lexical → Closes t →
      Closes u → m.2.text ++ t = e.text ++ u → m.2 = e ∧ t = u)
    (heq : (Doc.object before inner ms after).text ++ t =
      (Doc.object before' inner' ms' after').text ++ u) :
    before = before' ∧ inner = inner' ∧ ms = ms' ∧
    after ++ t = after' ++ u := by
  cases hd with
  | object hbefore hinner hafter hempty hnames hvalues =>
    cases he with
    | object hbefore' hinner' hafter' hempty' hnames' hvalues' =>
      simp only [text, memberTexts_eq, List.append_assoc,
        List.cons_append] at heq
      obtain ⟨rfl, hrest⟩ :=
        blank_injective hbefore hbefore' (head_not_space rfl _)
          (head_not_space rfl _) heq
      have hlead : ∀ m, m ∈ ms ∨ m ∈ ms' → ∀ t, ∃ b rest,
          token (memberText m ++ t) = some (b, rest) ∧ b ≠ 125 := by
        intro m hm t
        have hname : m.1.Lexical := hm.elim (hnames m) (hnames' m)
        obtain ⟨b, rest, htoken, hb⟩ := hname.token_text (58 :: m.2.text ++ t)
        refine ⟨b, rest, ?_, ?_⟩
        · rw [memberText, List.append_assoc]
          exact htoken
        · rintro rfl
          rcases hb with hb | hb <;> cases hb
      have hitem : ∀ m ∈ ms, ∀ n ∈ ms', ∀ t u, Closes t → Closes u →
          memberText m ++ t = memberText n ++ u → m = n ∧ t = u := by
        intro m hm n hn t u ht hu heq
        simp only [memberText, List.append_assoc, List.cons_append] at heq
        obtain ⟨hname, hcolon⟩ := scalar_injective (hnames m hm) (hnames' n hn)
          ⟨58, _, rfl, .inr rfl⟩ ⟨58, _, rfl, .inr rfl⟩ heq
        obtain ⟨hsame, htu⟩ :=
          hvalue m hm n.2 t u (hvalues m hm) (hvalues' n hn) ht hu
            (List.cons.inj hcolon).2
        exact ⟨Prod.ext hname hsame, htu⟩
      obtain ⟨rfl, rfl, hend⟩ :=
        content_injective rfl (by decide) hinner hinner' hempty hempty' hlead
          hitem (List.cons.inj hrest).2
      exact ⟨rfl, rfl, rfl, hend⟩

/-- A text is the text of one tree at most. -/
theorem text_injective (hd : d.Lexical) (he : e.Lexical) (ht : Closes t)
    (hu : Closes u) (heq : d.text ++ t = e.text ++ u) : d = e ∧ t = u := by
  have hspace : ∀ {v : Bytes}, Closes v → ∀ b ∈ v.head?, isSpace b = false :=
    fun hv b hb => (hv.marked.head b hb).1
  -- Both trees are of one kind, so the induction on the first meets no mixed
  -- case.
  have hkind := kind_eq hd he heq
  induction d using induct generalizing e t u with
  | hscalar s =>
    cases he with
    | scalar hs' =>
      cases hd with
      | scalar hs =>
        obtain ⟨rfl, htu⟩ := scalar_injective hs hs' ht.marked hu.marked heq
        exact ⟨rfl, htu⟩
    | array => cases hkind
    | object => cases hkind
  | harray before inner items after ih =>
    cases he with
    | scalar => cases hkind
    | @array before' inner' after' items' hbefore' hinner' hafter'
        hempty' hitems' =>
      have hvalue : ∀ v ∈ items, ∀ e t u, v.Lexical → e.Lexical → Closes t →
          Closes u → v.text ++ t = e.text ++ u → v = e ∧ t = u := by
        intro v hv e t u hd he ht hu heq
        exact ih v hv hd he ht hu heq (kind_eq hd he heq)
      cases hd with
      | array hbefore hinner hafter hempty hitems =>
        obtain ⟨rfl, rfl, rfl, hend⟩ :=
          items_injective (.array hbefore hinner hafter hempty hitems)
            (.array hbefore' hinner' hafter' hempty' hitems') hvalue heq
        obtain ⟨rfl, htu⟩ :=
          blank_injective hafter hafter' (hspace ht) (hspace hu) hend
        exact ⟨rfl, htu⟩
    | object => cases hkind
  | hobject before inner members after ih =>
    cases he with
    | scalar => cases hkind
    | array => cases hkind
    | @object before' inner' after' members' hbefore' hinner' hafter' hempty'
        hnames' hvalues' =>
      have hvalue : ∀ m ∈ members, ∀ e t u, m.2.Lexical → e.Lexical →
          Closes t → Closes u → m.2.text ++ t = e.text ++ u →
          m.2 = e ∧ t = u := by
        intro m hm e t u hd he ht hu heq
        exact ih m hm hd he ht hu heq (kind_eq hd he heq)
      obtain ⟨rfl, rfl, rfl, hend⟩ := members_injective hd
        (.object hbefore' hinner' hafter' hempty' hnames' hvalues') hvalue heq
      cases hd with
      | object _ _ hafter =>
        obtain ⟨rfl, htu⟩ :=
          blank_injective hafter hafter' (hspace ht) (hspace hu) hend
        exact ⟨rfl, htu⟩

/-- The tree of the object that a text begins with. -/
structure Opens (d : Doc) (s : Bytes) : Prop where
  lexical : d.Lexical
  kind : d.kind = .object
  text : d.text <+: s

/-- It is told by the text, up to the blanks after it. -/
theorem Opens.eq_object {s before inner : Bytes} {ms : List (Scalar × Doc)}
    (h : d.Opens s) (hobject : Lexical (.object before inner ms []))
    (hs : s = (Doc.object before inner ms []).text ++ t) :
    ∃ after, IsBlank after ∧ d = .object before inner ms after := by
  obtain ⟨hlexical, hkind, u, hu⟩ := h
  cases hlexical with
  | scalar => cases hkind
  | array => cases hkind
  | @object before' inner' after ms' hbefore hinner hafter
      hempty hnames hvalues =>
    obtain ⟨rfl, rfl, rfl, -⟩ :=
      members_injective (.object hbefore hinner hafter hempty hnames hvalues)
        hobject
        (fun m _ e t u hd he ht hu heq => text_injective hd he ht hu heq)
        (hu.trans hs)
    exact ⟨after, hafter, rfl⟩

end Doc

end Json
end TickRelay
