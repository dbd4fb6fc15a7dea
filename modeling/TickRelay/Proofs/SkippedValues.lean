import TickRelay.Proofs.OutlinedScalars

/-!
# Skipped values as trees

A value that nothing reads is skipped, with checks that depend on how much of
the text is there.

**Results.** What was skipped is a tree (`skipValue_outline`). A tree is
skipped at every place if each of its scalars is and its names are plain
(`skipValue_text`); nothing else about it matters, so its members may stand in
any order. `items_outline` and `items_of_chain` do the same for the items of
any list.
-/

namespace TickRelay
namespace Json

section Items

variable {σ μ : Type} {link : σ → μ → σ → Prop} {st mid st' : σ} {ms : List μ}

/-- A way from one value to another over a list of items. -/
inductive Chain (link : σ → μ → σ → Prop) : σ → List μ → σ → Prop
  | nil (st : σ) : Chain link st [] st
  | cons {st mid st' : σ} {m : μ} {ms : List μ} (h : link st m mid)
      (hrest : Chain link mid ms st') : Chain link st (m :: ms) st'

theorem Chain.forall_mem {P : μ → Prop} (h : Chain link st ms st')
    (hlink : ∀ st m mid, link st m mid → P m) : ∀ m ∈ ms, P m := by
  induction h with
  | nil => exact fun m hm => absurd hm List.not_mem_nil
  | cons h _ ih => exact List.forall_mem_cons.mpr ⟨hlink _ _ _ h, ih⟩

variable {item : σ → Bytes → Option (σ × Bytes)} {text : μ → Bytes}
  {close : UInt8}

/-- What was read as items is a list of items, if this is so of each item
before a mark. -/
theorem items_outline (link : σ → μ → σ → Prop) (text : μ → Bytes)
    (hclose : isClosing close = true)
    (hitem : ∀ st s mid rest, item st s = some (mid, rest) →
      Closes (skipSpace rest) →
      ∃ m, link st m mid ∧ s = text m ++ skipSpace rest)
    {k : Nat} {s rest : Bytes}
    (h : items item close k st s = some (st', rest)) :
    ∃ ms, ms ≠ [] ∧ Chain link st ms st' ∧
      s = Bytes.join [44] (ms.map text) ++ close :: rest := by
  induction k generalizing st s with
  | zero => cases h
  | succ k ih =>
    obtain ⟨⟨mid, t⟩, hmid, hnext⟩ := Option.bind_eq_some_iff.mp h
    obtain ⟨⟨c, u⟩, htoken, hend⟩ := Option.bind_eq_some_iff.mp hnext
    rw [token_eq_some] at htoken
    dsimp only at hend htoken
    split at hend
    · rename_i hc
      subst hc
      obtain ⟨m, hlink, rfl⟩ := hitem _ _ _ _ hmid ⟨44, u, htoken, rfl⟩
      obtain ⟨ms, hne, hchain, rfl⟩ := ih hend
      refine ⟨m :: ms, List.cons_ne_nil m ms, .cons hlink hchain, ?_⟩
      rw [List.map_cons, join_cons_append, follow,
        if_neg (mt List.map_eq_nil_iff.mp hne), htoken]
    · split at hend
      · rename_i hc
        subst hc
        obtain ⟨m, hlink, rfl⟩ := hitem _ _ _ _ hmid ⟨c, u, htoken, hclose⟩
        cases hend
        refine ⟨[m], List.cons_ne_nil m [], .cons hlink (.nil _), ?_⟩
        rw [List.map_cons, List.map_nil, join_cons_append, follow,
          if_pos rfl, htoken]
      · cases hend

theorem token_congr {s t : Bytes} (h : skipSpace s = skipSpace t) :
    token s = token t := by
  unfold token
  rw [h]

/-- And a list of items is read, if each item is, wherever it stands. -/
theorem items_of_chain (hclose : isClosing close = true) (hcomma : close ≠ 44)
    (hchain : Chain link st ms st')
    (hitem : ∀ m ∈ ms, ∀ st mid tail, link st m mid → Closes tail →
      ∃ rest, item st (text m ++ tail) = some (mid, rest) ∧
      skipSpace rest = skipSpace tail)
    (hne : ms ≠ []) {k : Nat} (hk : ms.length ≤ k) (rest : Bytes) :
    items item close k st (Bytes.join [44] (ms.map text) ++ close :: rest) =
      some (st', rest) := by
  induction hchain generalizing k with
  | nil => exact absurd rfl hne
  | @cons st mid st' m ms hlink _ ih =>
    obtain ⟨k, rfl⟩ : ∃ n, k = n + 1 :=
      ⟨k - 1, by rw [List.length_cons] at hk; omega⟩
    -- An item leaves what follows it only up to blanks, and that is all the
    -- next mark is told by.
    have hfollow := closes_follow (ms.map text) ⟨close, rest, rfl, hclose⟩
    obtain ⟨r, hr, hskip⟩ := hitem m List.mem_cons_self st mid _ hlink hfollow
    rw [List.map_cons, join_cons_append, items, hr]
    simp only [Option.bind_eq_bind, Option.bind_some, token_congr hskip]
    cases ms with
    | nil =>
      rename_i hend
      cases hend
      rw [List.map_nil, follow, if_pos rfl,
        token_cons (not_space_of_closing hclose), Option.bind_some]
      simp only [if_neg hcomma, if_pos]
    | cons m' ms =>
      rw [follow, if_neg (by simp), token_cons rfl, Option.bind_some]
      simp only [if_pos]
      refine ih (fun m hm => hitem m (List.mem_cons_of_mem _ hm))
        (List.cons_ne_nil m' ms) ?_
      rw [List.length_cons] at hk
      omega

theorem length_le_join_of_mem {s : Bytes} {ss : List Bytes} (hs : s ∈ ss) :
    s.length ≤ (Bytes.join [44] ss).length := by
  induction ss with
  | nil => cases hs
  | cons r ss ih =>
    have hjoin := join_cons_append r ss []
    rw [List.append_nil] at hjoin
    rw [hjoin, List.length_append]
    rcases List.mem_cons.mp hs with rfl | hs
    · omega
    · have := ih hs
      rw [follow, if_neg (List.ne_nil_of_mem hs), List.length_cons,
        List.append_nil]
      omega

/-- An array or an object is as long as it has items, and as each of them. -/
theorem bounds_of_content {first : UInt8} {before inner after : Bytes}
    {n : Nat}
    (h : (before ++ first :: (inner ++
      (Bytes.join [44] (ms.map text) ++ close :: after))).length ≤ n) :
    ms.length ≤ n ∧ ∀ m ∈ ms, (text m).length ≤ n := by
  simp only [List.length_append, List.length_cons] at h
  constructor
  · have hcount :
        (ms.map text).length ≤ (Bytes.join [44] (ms.map text)).length + 1 :=
      length_le_join _
    rw [List.length_map] at hcount
    omega
  · intro m hm
    have hjoin := length_le_join_of_mem (List.mem_map_of_mem (f := text) hm)
    omega

end Items

section Lists

variable {rest : Bytes}

/-- Blanks that a reader left are those after an array. -/
theorem Doc.array_text (before inner : Bytes) (vs : List Doc) :
    (Doc.array before inner vs (rest.takeWhile isSpace)).text ++
        skipSpace rest =
      before ++ 91 ::
      (inner ++ (Bytes.join [44] (vs.map Doc.text) ++ 93 :: rest)) := by
  simp only [Doc.text, Doc.texts_eq, List.append_assoc, List.cons_append,
    skipSpace, List.takeWhile_append_dropWhile]

theorem Doc.object_text (before inner : Bytes) (ms : List (Scalar × Doc)) :
    (Doc.object before inner ms (rest.takeWhile isSpace)).text ++
        skipSpace rest =
      before ++ 123 ::
      (inner ++ (Bytes.join [44] (ms.map Doc.memberText) ++ 125 :: rest)) := by
  simp only [Doc.text, Doc.memberTexts_eq, List.append_assoc, List.cons_append,
    skipSpace, List.takeWhile_append_dropWhile]

theorem Doc.length_value_le {m : Scalar × Doc} {n : Nat}
    (h : (Doc.memberText m).length ≤ n) : m.2.text.length ≤ n := by
  simp only [Doc.memberText, List.length_append, List.length_cons] at h
  omega

theorem isBlank_takeWhile (rest : Bytes) : IsBlank (rest.takeWhile isSpace) :=
  fun _ hb => List.mem_takeWhile_imp hb

theorem isBlank_nil : IsBlank [] := fun _ hb => absurd hb List.not_mem_nil

end Lists

section Numbers

variable {reach : Reach} {s rest : Bytes}

theorem readFloat_span {x : Binary64}
    (h : readFloat reach s = some (x, rest)) :
    ∃ w, w ≠ [] ∧ (∀ b ∈ w, isNumberByte b = true) ∧ s = w ++ rest := by
  unfold readFloat at h
  split at h
  · obtain ⟨⟨token, r⟩, htoken, hvalue⟩ := Option.bind_eq_some_iff.mp h
    obtain ⟨y, -, heq⟩ := Option.bind_eq_some_iff.mp hvalue
    cases heq
    obtain ⟨u, -, hbytes, -, -, rfl, -⟩ := floatToken?_spec htoken
    exact ⟨45 :: u, List.cons_ne_nil 45 u,
      List.forall_mem_cons.mpr ⟨rfl, hbytes⟩, rfl⟩
  · obtain ⟨⟨token, r⟩, htoken, hvalue⟩ := Option.bind_eq_some_iff.mp h
    obtain ⟨y, -, heq⟩ := Option.bind_eq_some_iff.mp hvalue
    cases heq
    obtain ⟨u, hne, hbytes, -, -, hs, -⟩ := floatToken?_spec htoken
    exact ⟨u, hne, hbytes, hs⟩

theorem skipFloat_span (h : skipFloat reach s = some rest) :
    ∃ w, w ≠ [] ∧ (∀ b ∈ w, isNumberByte b = true) ∧ s = w ++ rest := by
  unfold skipFloat at h
  split at h
  · rename_i t
    split at h
    · unfold skipWide at h
      split at h
      · split at h
        · cases h
          refine ⟨45 :: t.takeWhile isNumberByte, List.cons_ne_nil _ _,
            List.forall_mem_cons.mpr
              ⟨rfl, fun b hb => List.mem_takeWhile_imp hb⟩, ?_⟩
          rw [List.cons_append, List.takeWhile_append_dropWhile]
        · cases h
      · cases h
    · obtain ⟨⟨x, r⟩, hx, rfl⟩ := Option.map_eq_some_iff.mp h
      exact readFloat_span hx
  · obtain ⟨⟨x, r⟩, hx, rfl⟩ := Option.map_eq_some_iff.mp h
    exact readFloat_span hx

theorem scanDigits_span {n : Nat} (h : scanDigits s = .plain n rest) :
    ∃ w, (∀ b ∈ w, isNumberByte b = true) ∧ s = w ++ rest := by
  have hdigits : ∀ t : Bytes, ∀ b ∈ t.takeWhile Bytes.isDigit,
      isNumberByte b = true := fun t b hb =>
    Numeral.isNumberByte_of_digit (List.mem_takeWhile_imp hb)
  have hsplit := List.takeWhile_append_dropWhile (p := Bytes.isDigit) (l := s)
  unfold scanDigits at h
  dsimp only at h
  split at h
  · cases h
  · rename_i c t hdrop
    rw [hdrop] at hsplit
    split at h
    · rename_i hpoint
      subst hpoint
      split at h
      · cases h
      · rename_i t a u
        have hsplit' :=
          List.takeWhile_append_dropWhile (p := Bytes.isDigit) (l := a :: u)
        split at h
        · cases h
        · split at h
          · cases h
          · rename_i d v hdrop'
            rw [hdrop'] at hsplit'
            split at h
            · cases h
            · split at h
              · cases h
                refine ⟨s.takeWhile Bytes.isDigit ++ 46 ::
                  (a :: u).takeWhile Bytes.isDigit,
                  List.forall_mem_append.mpr ⟨hdigits s,
                    List.forall_mem_cons.mpr ⟨rfl, hdigits (a :: u)⟩⟩, ?_⟩
                rw [List.append_assoc, List.cons_append, hsplit', hsplit]
              · cases h
    · split at h
      · cases h
        exact ⟨_, hdigits s, hsplit.symm⟩
      · cases h

theorem skipNumber_span {b : UInt8} {t : Bytes}
    (hb : b = 45 ∨ Bytes.isDigit b = true)
    (h : skipNumber reach (b :: t) = some rest) :
    ∃ w, w ≠ [] ∧ (∀ c ∈ w, isNumberByte c = true) ∧ b :: t = w ++ rest := by
  have hnumber : isNumberByte b = true := by
    rcases hb with rfl | hb
    · rfl
    · exact Numeral.isNumberByte_of_digit hb
  unfold skipNumber at h
  split at h
  · unfold skipZero at h
    split at h
    · rename_i number r htoken
      split at h
      · cases h
        obtain ⟨u, hne, hbytes, -, -, hs, -⟩ := floatToken?_spec htoken
        exact ⟨u, hne, hbytes, hs⟩
      · cases h
    · cases h
  · unfold skipSigned at h
    split at h
    · rename_i n r hscan
      split at h
      · cases h
        obtain ⟨w, hw, ht⟩ := scanDigits_span hscan
        refine ⟨b :: w, List.cons_ne_nil b w,
          List.forall_mem_cons.mpr ⟨hnumber, hw⟩, ?_⟩
        rw [List.cons_append]
        exact congrArg (List.cons b) ht
      · exact skipFloat_span h
    · split at h
      · cases h
      · exact skipFloat_span h
    · exact skipFloat_span h

end Numbers

theorem exists_scalar_doc {before core : Bytes} (hbefore : IsBlank before)
    (hcore : IsCore core) (rest : Bytes) :
    ∃ d : Doc, d.Lexical ∧
      before ++ (core ++ rest) = d.text ++ skipSpace rest := by
  obtain ⟨sc, hsc, -, htext⟩ := exists_scalar hbefore hcore rest
  exact ⟨.scalar sc, .scalar hsc, htext⟩

section Levels

variable {room : Room} {depth : Nat}

/-- An item of an array that is skipped. -/
abbrev skipItem (room : Room) (depth : Nat) :
    Unit → Bytes → Option (Unit × Bytes) :=
  fun _ s => (skipValue room depth s).map (((), ·))

/-- A member of an object that is skipped. -/
abbrev skipMember (room : Room) (depth : Nat) :
    Unit → Bytes → Option (Unit × Bytes) :=
  fun _ s => do
    let (_, s) ← readName (readString room) s
    let s ← skipValue room depth s
    some ((), s)

theorem skipValue_append {before : Bytes} (hbefore : IsBlank before)
    (s : Bytes) :
    skipValue room depth (before ++ s) = skipValue room depth s := by
  unfold skipValue
  rw [token_append hbefore]

theorem skipValue_array (t : Bytes) :
    skipValue room (depth + 1) (91 :: t) = (token t).bind fun r =>
      if r.1 = 93 then some r.2
      else (items (skipItem room depth) 93 room.length () t).map (·.2) := by
  rw [skipValue, token_cons rfl]
  rfl

theorem skipValue_object (t : Bytes) :
    skipValue room (depth + 1) (123 :: t) = (token t).bind fun r =>
      if r.1 = 125 then some r.2
      else if r.1 = 34 then
        (items (skipMember room depth) 125 room.length () t).map (·.2)
      else none := by
  rw [skipValue, token_cons rfl]
  rfl

/-- What opens no level is skipped alike at any depth. -/
theorem skipValue_of_flat {s t : Bytes} {c : UInt8}
    (htoken : token s = some (c, t)) (harray : c ≠ 91) (hobject : c ≠ 123) :
    skipValue room depth s = skipValue room 0 s := by
  cases depth with
  | zero => rfl
  | succ depth =>
    unfold skipValue
    simp only [htoken, Option.bind_eq_bind, Option.bind_some,
      if_neg harray, if_neg hobject]

end Levels

section Outline

variable {room : Room} {depth : Nat}

theorem skipItems_outline {k : Nat} {s rest : Bytes}
    (hvalue : ∀ s rest, skipValue room depth s = some rest →
      ∃ d : Doc, d.Lexical ∧ s = d.text ++ skipSpace rest)
    (h : items (skipItem room depth) 93 k () s = some ((), rest)) :
    ∃ vs : List Doc, (∀ v ∈ vs, v.Lexical) ∧
      s = Bytes.join [44] (vs.map Doc.text) ++ 93 :: rest := by
  obtain ⟨vs, -, hchain, hs⟩ :=
    items_outline (fun _ v _ => v.Lexical) Doc.text rfl (by
    intro _ s _ rest hitem _
    obtain ⟨r, hr, heq⟩ := Option.map_eq_some_iff.mp hitem
    cases heq
    exact hvalue s rest hr) h
  exact ⟨vs, hchain.forall_mem fun _ _ _ h => h, hs⟩

theorem skipMembers_outline {k : Nat} {s rest : Bytes}
    (hvalue : ∀ s rest, skipValue room depth s = some rest →
      ∃ d : Doc, d.Lexical ∧ s = d.text ++ skipSpace rest)
    (h : items (skipMember room depth) 125 k () s = some ((), rest)) :
    ∃ ms : List (Scalar × Doc), (∀ m ∈ ms, m.1.Lexical ∧ m.2.Lexical) ∧
      s = Bytes.join [44] (ms.map Doc.memberText) ++ 125 :: rest := by
  obtain ⟨ms, -, hchain, hs⟩ :=
    items_outline (fun _ m _ => m.1.Lexical ∧ m.2.Lexical) Doc.memberText
    rfl (by
      intro _ s _ rest hmember _
      obtain ⟨⟨key, u⟩, hname, hnext⟩ := Option.bind_eq_some_iff.mp hmember
      obtain ⟨r, hr, heq⟩ := Option.bind_eq_some_iff.mp hnext
      cases heq
      obtain ⟨n, hn, rfl, -⟩ := takesName_string.outline hname
      obtain ⟨d, hd, hu⟩ := hvalue u rest hr
      refine ⟨(n, d), ⟨hn, hd⟩, ?_⟩
      rw [Doc.memberText, hu, List.append_assoc, List.cons_append]) h
  exact ⟨ms, hchain.forall_mem fun _ _ _ h => h, hs⟩

theorem skipArray_outline {before t rest : Bytes} (hbefore : IsBlank before)
    (hvalue : ∀ s rest, skipValue room depth s = some rest →
      ∃ d : Doc, d.Lexical ∧ s = d.text ++ skipSpace rest)
    (h : skipValue room (depth + 1) (91 :: t) = some rest) :
    ∃ d : Doc, d.Lexical ∧ before ++ 91 :: t = d.text ++ skipSpace rest := by
  rw [skipValue_array] at h
  obtain ⟨⟨e, u⟩, hopen, hitems⟩ := Option.bind_eq_some_iff.mp h
  dsimp only at hitems
  split at hitems
  · rename_i he
    subst he
    cases hitems
    obtain ⟨inner, hinner, rfl, -⟩ := exists_blank_of_token hopen
    exact ⟨_, .array hbefore hinner (isBlank_takeWhile rest) (fun _ => rfl)
      (fun v hv => absurd hv List.not_mem_nil),
      (Doc.array_text before inner []).symm⟩
  · obtain ⟨⟨_, r⟩, hr, rfl⟩ := Option.map_eq_some_iff.mp hitems
    obtain ⟨vs, hvs, rfl⟩ := skipItems_outline hvalue hr
    exact ⟨_, .array hbefore isBlank_nil (isBlank_takeWhile r)
      (fun h => absurd rfl h) hvs, (Doc.array_text before [] vs).symm⟩

theorem skipObject_outline {before t rest : Bytes} (hbefore : IsBlank before)
    (hvalue : ∀ s rest, skipValue room depth s = some rest →
      ∃ d : Doc, d.Lexical ∧ s = d.text ++ skipSpace rest)
    (h : skipValue room (depth + 1) (123 :: t) = some rest) :
    ∃ d : Doc, d.Lexical ∧ before ++ 123 :: t = d.text ++ skipSpace rest := by
  rw [skipValue_object] at h
  obtain ⟨⟨e, u⟩, hopen, hitems⟩ := Option.bind_eq_some_iff.mp h
  dsimp only at hitems
  split at hitems
  · rename_i he
    subst he
    cases hitems
    obtain ⟨inner, hinner, rfl, -⟩ := exists_blank_of_token hopen
    exact ⟨_, .object hbefore hinner (isBlank_takeWhile rest) (fun _ => rfl)
      (fun m hm => absurd hm List.not_mem_nil)
      (fun m hm => absurd hm List.not_mem_nil),
      (Doc.object_text before inner []).symm⟩
  split at hitems
  · obtain ⟨⟨_, r⟩, hr, rfl⟩ := Option.map_eq_some_iff.mp hitems
    obtain ⟨ms, hms, rfl⟩ := skipMembers_outline hvalue hr
    exact ⟨_, .object hbefore isBlank_nil (isBlank_takeWhile r)
      (fun h => absurd rfl h) (fun m hm => (hms m hm).1)
      (fun m hm => (hms m hm).2), (Doc.object_text before [] ms).symm⟩
  · cases hitems

/-- A tree without levels: a string, one of the three literals or a number. -/
theorem skipValue_zero_outline {s rest : Bytes}
    (h : skipValue room 0 s = some rest) :
    ∃ d : Doc, d.Lexical ∧ s = d.text ++ skipSpace rest := by
  unfold skipValue at h
  obtain ⟨⟨c, t⟩, htoken, hvalue⟩ := Option.bind_eq_some_iff.mp h
  obtain ⟨before, hbefore, rfl, -⟩ := exists_blank_of_token htoken
  dsimp only at hvalue
  by_cases hquote : c = 34
  · rw [if_pos hquote] at hvalue
    subst hquote
    obtain ⟨⟨x, r⟩, hx, rfl⟩ := Option.map_eq_some_iff.mp hvalue
    obtain ⟨body, hbody, rfl, -⟩ := readText_spec hx
    have hscalar := exists_scalar_doc hbefore (.quoted hbody) r
    simpa only [List.cons_append, List.append_assoc, List.nil_append]
      using hscalar
  rw [if_neg hquote] at hvalue
  by_cases hnull : c = 110
  · rw [if_pos hnull] at hvalue
    subst hnull
    rw [literal_eq_some.mp hvalue]
    exact exists_scalar_doc hbefore isCore_null rest
  rw [if_neg hnull] at hvalue
  by_cases htrue : c = 116
  · rw [if_pos htrue] at hvalue
    subst htrue
    rw [literal_eq_some.mp hvalue]
    exact exists_scalar_doc hbefore (isCore_word "true" (by decide) rfl) rest
  rw [if_neg htrue] at hvalue
  by_cases hfalse : c = 102
  · rw [if_pos hfalse] at hvalue
    subst hfalse
    rw [literal_eq_some.mp hvalue]
    exact exists_scalar_doc hbefore (isCore_word "false" (by decide) rfl) rest
  rw [if_neg hfalse] at hvalue
  by_cases hnumber : c = 45 ∨ Bytes.isDigit c = true
  · rw [if_pos hnumber] at hvalue
    obtain ⟨w, hne, hw, hs⟩ := skipNumber_span hnumber hvalue
    rw [hs]
    exact exists_scalar_doc hbefore
      (.word hne fun b hb => isWordByte_of_number (hw b hb)) rest
  rw [if_neg hnumber] at hvalue
  cases hvalue

/-- What was skipped is a tree, with the blanks after it. -/
theorem skipValue_outline {s rest : Bytes}
    (h : skipValue room depth s = some rest) :
    ∃ d : Doc, d.Lexical ∧ s = d.text ++ skipSpace rest := by
  induction depth generalizing s rest with
  | zero => exact skipValue_zero_outline h
  | succ depth ih =>
    obtain ⟨⟨c, t⟩, htoken, -⟩ :=
      Option.bind_eq_some_iff.mp (skipValue.eq_def room _ s ▸ h)
    obtain ⟨before, hbefore, rfl, -⟩ := exists_blank_of_token htoken
    -- Only a bracket or a brace opens a level; at any other byte the depth
    -- does not matter.
    by_cases harray : c = 91
    · subst harray
      rw [skipValue_append hbefore] at h
      exact skipArray_outline hbefore (fun _ _ => ih) h
    by_cases hobject : c = 123
    · subst hobject
      rw [skipValue_append hbefore] at h
      exact skipObject_outline hbefore (fun _ _ => ih) h
    rw [skipValue_of_flat htoken harray hobject] at h
    exact skipValue_zero_outline h

end Outline

/-- A tree whose scalars are skipped at any place, and whose names are
plain. -/
inductive Doc.Skippable : Doc → Prop
  | scalar {s : Scalar}
      (h : ∀ room tail, Breaks tail →
        skipValue room 0 (s.core ++ tail) = some tail) : Skippable (.scalar s)
  | array {before inner after : Bytes} {items : List Doc}
      (hitems : ∀ v ∈ items, Skippable v) :
      Skippable (.array before inner items after)
  | object {before inner after : Bytes} {members : List (Scalar × Doc)}
      (hnames : ∀ m ∈ members, IsPlainName m.1.core)
      (hvalues : ∀ m ∈ members, Skippable m.2) :
      Skippable (.object before inner members after)

section Skip

variable {room : Room} {depth : Nat} {before s t rest tail : Bytes}

/-- What is skipped where no level may open is skipped anywhere. -/
theorem skipValue_of_zero (h : skipValue room 0 s = some rest) (depth : Nat) :
    skipValue room depth s = some rest := by
  obtain ⟨⟨c, t⟩, htoken, hvalue⟩ :=
    Option.bind_eq_some_iff.mp (skipValue.eq_def room 0 s ▸ h)
  have harray : c ≠ 91 := by
    rintro rfl
    cases hvalue
  have hobject : c ≠ 123 := by
    rintro rfl
    cases hvalue
  rwa [skipValue_of_flat htoken harray hobject]

theorem chain_unit {μ : Type} (ms : List μ) :
    Chain (fun (_ : Unit) (_ : μ) (_ : Unit) => True) () ms () := by
  induction ms with
  | nil => exact .nil ()
  | cons m ms ih => exact .cons trivial ih

/-- Skips the items of an array, if each of them is skipped. -/
theorem skipItems_join {vs : List Doc} (hne : vs ≠ [])
    (hskip : ∀ v ∈ vs, ∀ tail, Closes tail →
      ∃ rest, skipValue room depth (v.text ++ tail) = some rest ∧
      skipSpace rest = skipSpace tail)
    {k : Nat} (hk : vs.length ≤ k) (rest : Bytes) :
    items (skipItem room depth) 93 k () (Bytes.join [44] (vs.map Doc.text) ++
        93 :: rest) = some ((), rest) := by
  refine items_of_chain rfl (by decide) (chain_unit vs) ?_ hne hk rest
  intro v hv _ _ tail _ htail
  obtain ⟨r, hr, hspace⟩ := hskip v hv tail htail
  exact ⟨r, by rw [skipItem, hr]; rfl, hspace⟩

/-- Skips the members of an object, if each name is read and each value is
skipped. -/
theorem skipMembers_join {ms : List (Scalar × Doc)} (hne : ms ≠ [])
    (hname : ∀ m ∈ ms, ReadsName readString m.1)
    (hskip : ∀ m ∈ ms, ∀ tail, Closes tail →
      ∃ rest, skipValue room depth (m.2.text ++ tail) = some rest ∧
      skipSpace rest = skipSpace tail)
    {k : Nat} (hk : ms.length ≤ k) (rest : Bytes) :
    items (skipMember room depth) 125 k ()
        (Bytes.join [44] (ms.map Doc.memberText) ++ 125 :: rest) =
      some ((), rest) := by
  refine items_of_chain rfl (by decide) (chain_unit ms) ?_ hne hk rest
  intro m hm _ _ tail _ htail
  obtain ⟨r, hr, hspace⟩ := hskip m hm tail htail
  refine ⟨r, ?_, hspace⟩
  rw [skipMember, Doc.memberText, List.append_assoc,
    List.cons_append, hname m hm]
  simp only [Option.bind_eq_bind, Option.bind_some, hr]

theorem IsPlainName.token_text {n : Scalar} (hn : n.Lexical)
    (hplain : IsPlainName n.core) (t : Bytes) :
    ∃ rest, token (n.text ++ t) = some (34, rest) := by
  obtain ⟨u, hcore, -⟩ := hplain
  refine ⟨u ++ n.after ++ t, ?_⟩
  rw [Scalar.text, List.append_assoc, token_append hn.before, hcore,
    List.append_assoc, List.cons_append, token_cons rfl, List.append_assoc]

/-- A tree that may be skipped at any place is skipped with what follows it
left, up to blanks. -/
theorem skipValue_text {d : Doc} (hd : d.Lexical) (h : d.Skippable)
    (hdepth : d.depth ≤ depth) (hlength : d.text.length ≤ room.length)
    (htail : d.kind = .scalar → Breaks tail) :
    ∃ rest, skipValue room depth (d.text ++ tail) = some rest ∧
      skipSpace rest = skipSpace tail := by
  induction d using Doc.induct generalizing depth tail with
  | hscalar s =>
    cases hd with
    | scalar hs =>
      cases h with
      | scalar h =>
        refine ⟨s.after ++ tail, ?_, skipSpace_append hs.after tail⟩
        rw [Doc.text, Scalar.text, List.append_assoc, List.append_assoc,
          skipValue_append hs.before]
        exact skipValue_of_zero
          (h room _ (breaks_append hs.after (htail rfl))) depth
  | harray before inner vs after ih =>
    cases hd with
    | array hbefore hinner hafter hempty hvs =>
      cases h with
      | array hskip =>
        obtain ⟨depth, rfl⟩ : ∃ n, depth = n + 1 :=
          ⟨depth - 1, by rw [Doc.depth] at hdepth; omega⟩
        refine ⟨after ++ tail, ?_, skipSpace_append hafter tail⟩
        rw [Doc.text, Doc.texts_eq] at hlength ⊢
        rw [Doc.depth] at hdepth
        obtain ⟨hcount, hbound⟩ := bounds_of_content hlength
        simp only [List.append_assoc, List.cons_append,
          skipValue_append hbefore, skipValue_array]
        cases vs with
        | nil =>
          simp [Bytes.join, token_append hinner,
            token_cons (show isSpace 93 = false from rfl)]
        | cons v vs =>
          obtain rfl : inner = [] := by
            by_contra hne
            cases hempty hne
          have hitem : ∀ w ∈ v :: vs, ∀ tail, Closes tail →
              ∃ rest, skipValue room depth (w.text ++ tail) = some rest ∧
                skipSpace rest = skipSpace tail := by
            intro w hw tail htail
            have hle := Doc.depth_le_depths hw
            exact ih w hw (hvs w hw) (hskip w hw) (by omega) (hbound w hw)
              fun _ => htail.breaks
          obtain ⟨b, r, htoken, hb, -⟩ := (hvs v List.mem_cons_self).token_text
            (follow (vs.map Doc.text) (93 :: (after ++ tail)))
          have hopen : b ≠ 93 := by
            rintro rfl
            cases hb
          rw [List.nil_append,
            skipItems_join (List.cons_ne_nil v vs) hitem hcount, List.map_cons,
            join_cons_append, htoken]
          simp [hopen]
  | hobject before inner ms after ih =>
    cases hd with
    | object hbefore hinner hafter hempty hnames hvalues =>
      cases h with
      | object hplain hskip =>
        obtain ⟨depth, rfl⟩ : ∃ n, depth = n + 1 :=
          ⟨depth - 1, by rw [Doc.depth] at hdepth; omega⟩
        refine ⟨after ++ tail, ?_, skipSpace_append hafter tail⟩
        rw [Doc.text, Doc.memberTexts_eq] at hlength ⊢
        rw [Doc.depth] at hdepth
        obtain ⟨hcount, hbound⟩ := bounds_of_content hlength
        simp only [List.append_assoc, List.cons_append,
          skipValue_append hbefore, skipValue_object]
        cases ms with
        | nil =>
          simp [Bytes.join, token_append hinner,
            token_cons (show isSpace 125 = false from rfl)]
        | cons m ms =>
          obtain rfl : inner = [] := by
            by_contra hne
            cases hempty hne
          have hvalue : ∀ n ∈ m :: ms, ∀ tail, Closes tail →
              ∃ rest, skipValue room depth (n.2.text ++ tail) = some rest ∧
                skipSpace rest = skipSpace tail := by
            intro n hn tail htail
            have hle := Doc.depth_le_memberDepths hn
            exact ih n hn (hvalues n hn) (hskip n hn) (by omega)
              (Doc.length_value_le (hbound n hn)) fun _ => htail.breaks
          have hname : ∀ n ∈ m :: ms, ReadsName readString n.1 := fun n hn =>
            (readsName_of_plain (hnames n hn) (hplain n hn)).1
          obtain ⟨r, htoken⟩ :=
            (hplain m List.mem_cons_self).token_text
              (hnames m List.mem_cons_self)
              (58 :: (m.2.text ++ follow (ms.map Doc.memberText)
                (125 :: (after ++ tail))))
          rw [List.nil_append, skipMembers_join (List.cons_ne_nil m ms) hname
            hvalue hcount, List.map_cons, join_cons_append, Doc.memberText,
            List.append_assoc, List.cons_append, htoken]
          rfl

end Skip

end Json
end TickRelay
