import TickRelay.Json.Text
import TickRelay.Proofs.QuotedTexts
import TickRelay.Proofs.WrittenNumbers

/-!
# Objects that are written and read

**Input.** An object whose members are texts and finite numbers, as
`Json.writeObject` puts it down.

**Algorithm.** A reader of items goes from member to member. `Takes` says of
one member that it is taken up to the comma or the brace behind it, and what
then holds of the value so far; `TakesAll` chains this over the members of an
object.

**Results.** `decode_record`: a record is read from all members in turn.
`decode_object`: a reader that knows no names finds the members that were
written and no others, each text repaired and each number as it was.
`isValid_writeObject`: the object is valid UTF-8.
-/

namespace TickRelay

namespace Utf8

theorem utf8_eq_encode (s : String) : utf8 s = encode s.toList := by
  unfold utf8 encode
  rw [← String.utf8Encode_toList]
  simp [List.utf8Encode]

/-- The bytes of a string have nothing to repair. -/
theorem repair_utf8 (s : String) : repair (utf8 s) = utf8 s := by
  rw [utf8_eq_encode, repair, scalars_encode]

end Utf8

namespace Json

/-- A byte that follows a member. -/
def EndsMember (b : UInt8) : Prop := b = 44 ∨ b = 125

theorem EndsMember.isNumberByte {b : UInt8} (hb : EndsMember b)
    {rest : Bytes} : ∀ c ∈ (b :: rest).head?, isNumberByte c = false := by
  intro c hc
  obtain rfl := Option.some.inj hc
  rcases hb with rfl | rfl <;> rfl

section Chains

variable {σ : Type} {item : σ → Bytes → Option (σ × Bytes)} {P Q R : σ → Prop}
  {s : Bytes} {ss ts : List Bytes}

/-- From a state of `P` an item takes all of `s` and nothing behind it, to a
state of `Q`. -/
def Takes (item : σ → Bytes → Option (σ × Bytes)) (P : σ → Prop) (s : Bytes)
    (Q : σ → Prop) : Prop :=
  ∀ ⦃st⦄, P st → ∀ ⦃b⦄, EndsMember b → ∀ rest,
    ∃ st', Q st' ∧ item st (s ++ b :: rest) = some (st', b :: rest)

/-- The same for one text after another. -/
inductive TakesAll (item : σ → Bytes → Option (σ × Bytes)) :
    (σ → Prop) → List Bytes → (σ → Prop) → Prop
  | nil {P Q : σ → Prop} (h : ∀ st, P st → Q st) : TakesAll item P [] Q
  | cons {P Q R : σ → Prop} {s : Bytes} {ss : List Bytes}
      (h : Takes item P s Q) (hs : TakesAll item Q ss R) :
      TakesAll item P (s :: ss) R

theorem Takes.weaken (h : Takes item Q s R) (hPQ : ∀ st, P st → Q st) :
    Takes item P s R :=
  fun st hst => h (hPQ st hst)

theorem TakesAll.weaken (h : TakesAll item Q ss R) (hPQ : ∀ st, P st → Q st) :
    TakesAll item P ss R := by
  cases h with
  | nil hQR => exact .nil fun st hst => hQR st (hPQ st hst)
  | cons hfirst hrest => exact .cons (hfirst.weaken hPQ) hrest

theorem TakesAll.single (h : Takes item P s Q) : TakesAll item P [s] Q :=
  .cons h (.nil fun _ => id)

theorem TakesAll.append (h : TakesAll item P ss Q)
    (h' : TakesAll item Q ts R) : TakesAll item P (ss ++ ts) R := by
  induction h with
  | nil hPQ => exact h'.weaken hPQ
  | cons hfirst _ ih => exact .cons hfirst (ih h')

/-- Items with commas between them are taken in turn, up to the brace. -/
theorem TakesAll.items_join (h : TakesAll item P ss Q) (hne : ss ≠ [])
    {k : Nat} (hk : ss.length ≤ k) {st : σ} (hst : P st) (rest : Bytes) :
    ∃ st', Q st' ∧
      items item 125 k st (Bytes.join (utf8 ",") ss ++ 125 :: rest) =
        some (st', rest) := by
  induction h generalizing k st with
  | nil => exact absurd rfl hne
  | @cons P Q R s ss hfirst hrest ih =>
    obtain ⟨k, rfl⟩ : ∃ j, k = j + 1 :=
      ⟨k - 1, by rw [List.length_cons] at hk; omega⟩
    have hk' : ss.length ≤ k := Nat.le_of_succ_le_succ hk
    cases ss with
    | nil =>
      obtain ⟨st', hQ, hitem⟩ := hfirst hst (.inr rfl) rest
      cases hrest with
      | nil hQR =>
        refine ⟨st', hQR st' hQ, ?_⟩
        rw [Bytes.join, items, hitem]
        rfl
    | cons t ss =>
      obtain ⟨st₁, hQ, hitem⟩ :=
        hfirst hst (.inl rfl) (Bytes.join (utf8 ",") (t :: ss) ++ 125 :: rest)
      obtain ⟨st', hR, hitems⟩ := ih (List.cons_ne_nil _ _) hk' hQ
      refine ⟨st', hR, ?_⟩
      have htext : Bytes.join (utf8 ",") (s :: t :: ss) ++ 125 :: rest =
          s ++ 44 :: (Bytes.join (utf8 ",") (t :: ss) ++ 125 :: rest) := by
        rw [Bytes.join, List.append_assoc, List.append_assoc]
        · rfl
        · exact List.cons_ne_nil _ _
      rw [htext, items, hitem]
      exact hitems

end Chains

section Objects

theorem length_le_writeObject (kvs : List (Bytes × Bytes)) :
    kvs.length ≤ (writeObject kvs).length := by
  have hjoin := length_le_join (kvs.map writeMember)
  rw [List.length_map] at hjoin
  rw [writeObject, List.length_cons, List.length_append]
  exact Nat.le_trans hjoin (Nat.succ_le_succ (Nat.le_add_right _ _))

variable {σ : Type} {P Q : σ → Prop} {kvs : List (Bytes × Bytes)}
  (hne : kvs ≠ []) {st : σ}
include hne

/-- Behind its brace an object goes on with the quote of a name, and its
members are taken in turn. -/
theorem items_writeObject {item : σ → Bytes → Option (σ × Bytes)}
    (h : TakesAll item P (kvs.map writeMember) Q) (hst : P st) :
    ∃ t st', Q st' ∧ writeObject kvs = 123 :: 34 :: t ∧
      items item 125 (writeObject kvs).length st (34 :: t) =
        some (st', []) := by
  have hlength := length_le_writeObject kvs
  rw [← List.length_map writeMember] at hlength
  obtain ⟨st', hQ, hitems⟩ := h.items_join (by simpa using hne) hlength hst []
  obtain ⟨t, ht⟩ :
      ∃ t, Bytes.join (utf8 ",") (kvs.map writeMember) = 34 :: t := by
    cases kvs with
    | nil => exact absurd rfl hne
    | cons m kvs => cases kvs <;> exact ⟨_, rfl⟩
  refine ⟨t ++ [125], st', hQ, ?_, ?_⟩
  · rw [writeObject, ht]
    rfl
  · rwa [ht] at hitems

/-- A record is read from the members of an object in turn, and nothing is
left. -/
theorem decode_record {rule : NameRule} {members : List (Member σ)}
    (h : ∀ room : Room, room.block = 0 →
      TakesAll (readMember rule members room) P (kvs.map writeMember) Q)
    (hst : P st) :
    ∃ st', Q st' ∧
      decode (record rule members) st (writeObject kvs) = some st' := by
  let room : Room :=
    { length := (writeObject kvs).length, depth := maxDepth, block := 0 }
  let inner : Room := { room with depth := 9999 }
  obtain ⟨t, st', hQ, htext, hitems⟩ := items_writeObject hne (h inner rfl) hst
  have hrecord :
      record rule members room st (writeObject kvs) = some (st', []) := by
    rw [htext]
    exact hitems
  refine ⟨st', hQ, ?_⟩
  unfold decode decodeFirst
  rw [hrecord]
  rfl

end Objects

section Members

variable {σ α : Type} {members : List (Member σ)} {room : Room}
  {P Q : σ → Prop} {name : String} {v : Bytes}

theorem readName_quote (name : String) (rest : Bytes) :
    readName looseName (quote (utf8 name) ++ 58 :: rest) =
      some (utf8 name, rest) := by
  rw [readName, looseName_quote, Utf8.repair_utf8]
  rfl

theorem writeMember_append (name : String) (v rest : Bytes) :
    writeMember (utf8 name, v) ++ rest =
      quote (utf8 name) ++ 58 :: (v ++ rest) := by
  rw [writeMember, List.append_assoc, List.append_assoc]
  rfl

/-- A member whose name a record knows is taken if its value is. -/
theorem takes_member {m : Member σ}
    (hselect : select .loose members (utf8 name) = some m)
    (hvalue : Takes (m.read room) P v Q) :
    Takes (readMember .loose members room) P
        (writeMember (utf8 name, v)) Q := by
  intro st hst b hb rest
  obtain ⟨st', hQ, hread⟩ := hvalue hst hb rest
  refine ⟨st', hQ, ?_⟩
  have hname :
      readName (NameRule.loose.read room) (quote (utf8 name) ++ 58 ::
        (v ++ b :: rest)) = some (utf8 name, v ++ b :: rest) :=
    readName_quote name _
  rw [writeMember_append, readMember, hname, Option.bind_eq_bind,
    Option.bind_some]
  dsimp only
  rw [hselect]
  exact hread

/-- A component is taken if its value is, over any older one. -/
theorem takes_component {get : σ → α} {set : σ → α → σ} {value : ValueReader α}
    {V : α → Prop} (hvalue : Takes (value room) (fun _ => True) v V)
    (hset : ∀ st a, P st → V a → Q (set st a)) :
    Takes ((Member.of name get set value).read room) P v Q := by
  intro st hst b hb rest
  obtain ⟨a, hV, hread⟩ := @hvalue (get st) trivial b hb rest
  refine ⟨set st a, hset st a hst hV, ?_⟩
  show (value room (get st) (v ++ b :: rest)).map _ = _
  rw [hread]
  rfl

theorem takes_text (s : Bytes) :
    Takes (text room) (fun _ => True) (quote s) (· = Utf8.repair s) :=
  fun _ _ _ _ _ => ⟨_, rfl, readString_quote room s _⟩

theorem takes_textMember {get : σ → Bytes} {set : σ → Bytes → σ}
    (hselect : select .loose members (utf8 name) =
      some (Member.of name get set text))
    (s : Bytes) (st : σ) :
    Takes (readMember .loose members room) (· = st)
        (writeMember (utf8 name, quote s)) (· = set st (Utf8.repair s)) :=
  takes_member hselect
    (takes_component (takes_text s) fun _ _ hst hs => by rw [hst, hs])

section Numbers

variable {u : Bytes} (hne : u ≠ []) (hu : ∀ b ∈ u, isNumberByte b = true)
  (rest : Bytes)
include hne hu

/-- A number does not begin like a blank, like `null` or like a text. -/
theorem token_number :
    ∃ c t, u ++ rest = c :: t ∧ token (u ++ rest) = some (c, t) ∧
      c ≠ 110 ∧ c ≠ 34 := by
  cases u with
  | nil => exact absurd rfl hne
  | cons c t =>
    have hc : isNumberByte c = true := hu c List.mem_cons_self
    have hspace : isSpace c = false := by
      rw [Bool.eq_false_iff]
      intro hspace
      simp only [isSpace, Bool.or_eq_true, beq_iff_eq] at hspace
      obtain ((rfl | rfl) | rfl) | rfl := hspace <;> cases hc
    refine ⟨c, t ++ rest, rfl, token_cons hspace, ?_, ?_⟩
    · rintro rfl
      cases hc
    · rintro rfl
      cases hc

theorem orKeep_number (read : Room → Bytes → Option (α × Bytes)) (old : α) :
    orKeep read room old (u ++ rest) = read room (u ++ rest) := by
  obtain ⟨c, t, hcons, htoken, hnull, -⟩ := token_number hne hu rest
  unfold orKeep
  rw [htoken, Option.bind_eq_bind, Option.bind_some]
  dsimp only
  rw [if_neg hnull, hcons]

theorem optionalFloat_number (old : Option Binary64) :
    optionalFloat room old (u ++ rest) =
      (readFloat (room.reach (u ++ rest)) (u ++ rest)).map fun r =>
      (some r.1, r.2) := by
  obtain ⟨c, t, hcons, htoken, hnull, -⟩ := token_number hne hu rest
  unfold optionalFloat
  rw [htoken, Option.bind_eq_bind, Option.bind_some]
  dsimp only
  rw [if_neg hnull, hcons]

end Numbers

theorem readFloat_number {x : Binary64} (hx : x.isFinite = true)
    (hroom : room.block = 0) {b : UInt8} (hb : EndsMember b) (rest s : Bytes) :
    ∃ y, readFloat (room.reach s) (x.shortestText ++ b :: rest) =
      some (y, b :: rest) := by
  have hreach : room.reach s = none := if_pos hroom
  rw [hreach]
  exact Binary64.readFloat_shortestText hx hb.isNumberByte

theorem takes_float {x : Binary64} (hx : x.isFinite = true)
    (hroom : room.block = 0) :
    Takes (float room) (fun _ => True) x.shortestText (fun _ => True) := by
  intro old _ b hb rest
  obtain ⟨y, hread⟩ :=
    readFloat_number hx hroom hb rest (x.shortestText ++ b :: rest)
  refine ⟨y, trivial, ?_⟩
  rw [float, orKeep_number (Binary64.shortestText_ne_nil hx)
    (Binary64.isNumberByte_shortestText hx)]
  exact hread

theorem takes_optionalFloat {x : Binary64} (hx : x.isFinite = true)
    (hroom : room.block = 0) :
    Takes (optionalFloat room) (fun _ => True) x.shortestText
        (·.isSome = true) := by
  intro old _ b hb rest
  obtain ⟨y, hread⟩ :=
    readFloat_number hx hroom hb rest (x.shortestText ++ b :: rest)
  refine ⟨some y, rfl, ?_⟩
  rw [optionalFloat_number (Binary64.shortestText_ne_nil hx)
    (Binary64.isNumberByte_shortestText hx), hread]
  rfl

theorem takes_integer {k : Nat} (hk : k < 2 ^ 63) :
    Takes (integer room) (fun _ => True) (Bytes.decimal k)
        (· = Int64.ofInt k) := by
  intro old _ b hb rest
  refine ⟨_, rfl, ?_⟩
  rw [integer, orKeep_number (Bytes.decimal_ne_nil k)
    fun c hc =>
      Numeral.isNumberByte_of_digit (Bytes.isDigit_of_mem_decimal hc)]
  exact readInteger_decimal hk hb.isNumberByte

theorem takes_integerMember {get : σ → Int64} {set : σ → Int64 → σ}
    (hselect : select .loose members (utf8 name) =
      some (Member.of name get set integer))
    {k : Nat} (hk : k < 2 ^ 63) (st : σ) :
    Takes (readMember .loose members room) (· = st)
        (writeMember (utf8 name, Bytes.decimal k))
        (· = set st (Int64.ofInt k)) :=
  takes_member hselect
    (takes_component (takes_integer hk) fun _ _ hst hi => by rw [hst, hi])

end Members

section Data

/-- The value of a member: a text or a number. -/
inductive Datum where
  | text (s : Bytes)
  | number (x : Binary64)
  deriving DecidableEq

namespace Datum

/-- The written value. -/
def written : Datum → Bytes
  | text s => quote s
  | number x => x.shortestText

/-- The value with U+FFFD in place of each byte that belongs to no code
point. -/
def repaired : Datum → Datum
  | text s => text (Utf8.repair s)
  | number x => number x

/-- Whether the value can be written. -/
def IsFinite : Datum → Prop
  | text _ => True
  | number x => x.isFinite = true

end Datum

variable {room : Room}

/-- A text or a number. A number goes as far as the reader of numbers takes it,
and is the one nearest to what the token denotes. -/
def readDatum (room : Room) (s : Bytes) : Option (Datum × Bytes) := do
  let (c, t) ← token s
  if c = 34 then (readText room t).map fun r => (.text r.1, r.2)
  else
    let (_, rest) ← readFloat (room.reach (c :: t)) (c :: t)
    let x ← Binary64.ofText? ((c :: t).take ((c :: t).length - rest.length))
    some (.number x, rest)

/-- One more member. -/
def readPair (room : Room) (found : List (Bytes × Datum)) (s : Bytes) :
    Option (List (Bytes × Datum) × Bytes) := do
  let (name, s) ← readName looseName s
  let (value, s) ← readDatum room s
  some (found ++ [(name, value)], s)

/-- An object of texts and numbers: all its members in order, whatever their
names. -/
def object : ValueReader (List (Bytes × Datum)) := fun room _ s => do
  let (c, s) ← token s
  if c = 123 then
    let (e, rest) ← token s
    if e = 125 then some ([], rest)
    else items (readPair room) 125 room.length [] s
  else none

theorem readDatum_written (hroom : room.block = 0) {d : Datum}
    (hd : d.IsFinite) {b : UInt8} (hb : EndsMember b) (rest : Bytes) :
    readDatum room (d.written ++ b :: rest) =
      some (d.repaired, b :: rest) := by
  cases d with
  | text s =>
    rw [Datum.written, quote_append]
    show (readText room _).map _ = _
    rw [readText_quote]
    rfl
  | number x =>
    obtain ⟨c, t, hcons, htoken, -, hquote⟩ :=
      token_number (Binary64.shortestText_ne_nil hd)
        (Binary64.isNumberByte_shortestText hd) (b :: rest)
    obtain ⟨y, hread⟩ := readFloat_number hd hroom hb rest (c :: t)
    have htake :
        (c :: t).take ((c :: t).length - (b :: rest).length) =
          x.shortestText := by
      rw [← hcons, List.length_append, Nat.add_sub_cancel, List.take_left]
    rw [hcons] at hread
    unfold readDatum
    rw [Datum.written, htoken, Option.bind_eq_bind, Option.bind_some]
    dsimp only
    rw [if_neg hquote, hread, Option.bind_eq_bind, Option.bind_some]
    dsimp only
    rw [htake, Binary64.ofText?_shortestText hd]
    rfl

theorem takes_pair (hroom : room.block = 0) (name : String) {d : Datum}
    (hd : d.IsFinite) (found : List (Bytes × Datum)) :
    Takes (readPair room) (· = found) (writeMember (utf8 name, d.written))
        (· = found ++ [(utf8 name, d.repaired)]) := by
  rintro _ rfl b hb rest
  refine ⟨_, rfl, ?_⟩
  rw [writeMember_append, readPair, readName_quote, Option.bind_eq_bind,
    Option.bind_some]
  dsimp only
  rw [readDatum_written hroom hd hb]
  rfl

/-- The written form of named values. -/
def writtenPairs (pairs : List (String × Datum)) : List (Bytes × Bytes) :=
  pairs.map fun p => (utf8 p.1, p.2.written)

/-- Named values as they are read. -/
def repairedPairs (pairs : List (String × Datum)) : List (Bytes × Datum) :=
  pairs.map fun p => (utf8 p.1, p.2.repaired)

theorem takesAll_pairs (hroom : room.block = 0) {pairs : List (String × Datum)}
    (hfinite : ∀ p ∈ pairs, p.2.IsFinite) (found : List (Bytes × Datum)) :
    TakesAll (readPair room) (· = found) ((writtenPairs pairs).map writeMember)
      (· = found ++ repairedPairs pairs) := by
  induction pairs generalizing found with
  | nil => exact .nil fun st hst => hst.trans (List.append_nil found).symm
  | cons p pairs ih =>
    obtain ⟨hfirst, hrest⟩ := List.forall_mem_cons.mp hfinite
    refine .cons (takes_pair hroom p.1 hfirst found) ?_
    have hchain := ih hrest (found ++ [(utf8 p.1, p.2.repaired)])
    rwa [List.append_assoc] at hchain

/-- A reader without expectations finds the members that were written, in
order, and no others. -/
theorem decode_object {pairs : List (String × Datum)} (hne : pairs ≠ [])
    (hfinite : ∀ p ∈ pairs, p.2.IsFinite) :
    decode object [] (writeObject (writtenPairs pairs)) =
      some (repairedPairs pairs) := by
  let room : Room :=
    { length := (writeObject (writtenPairs pairs)).length,
      depth := maxDepth, block := 0 }
  obtain ⟨t, _, rfl, htext, hitems⟩ :=
    items_writeObject (by simpa [writtenPairs] using hne)
      (takesAll_pairs (show room.block = 0 from rfl) hfinite []) rfl
  have hobject :
      object room [] (writeObject (writtenPairs pairs)) =
        some (repairedPairs pairs, []) := by
    rw [htext]
    exact hitems
  unfold decode decodeFirst
  rw [hobject]
  rfl

section Closed

variable {P : Bytes → Prop} (h : Closed P)
include h

theorem Closed.number {x : Binary64} (hx : x.isFinite = true) :
    P x.shortestText := by
  refine h.ascii (List.all_eq_true.mpr fun b hb => ?_)
  have hnumber := Binary64.isNumberByte_shortestText hx b hb
  simp only [isNumberByte, Bool.or_eq_true, beq_iff_eq] at hnumber
  obtain ((((hdigit | rfl) | rfl) | rfl) | rfl) | rfl := hnumber
  · exact isVisibleAscii_of_isDigit hdigit
  all_goals rfl

theorem Closed.written {d : Datum} (hd : d.IsFinite) : P d.written := by
  cases d with
  | text s => exact h.quote s
  | number x => exact h.number hd

theorem Closed.join {ss : List Bytes} (hss : ∀ s ∈ ss, P s) :
    P (Bytes.join (utf8 ",") ss) := by
  induction ss with
  | nil => exact h.ascii rfl
  | cons s ss ih =>
    obtain ⟨hs, hrest⟩ := List.forall_mem_cons.mp hss
    cases ss with
    | nil => exact hs
    | cons t ss => exact h.append (h.append hs (h.ascii rfl)) (ih hrest)

/-- What holds of the pieces holds of the object, whatever bytes its texts
have. -/
theorem Closed.writeObject {pairs : List (String × Datum)}
    (hfinite : ∀ p ∈ pairs, p.2.IsFinite) :
    P (writeObject (writtenPairs pairs)) := by
  have hmembers : ∀ s ∈ (writtenPairs pairs).map writeMember, P s := by
    simp only [writtenPairs, List.map_map, List.forall_mem_map]
    exact fun p hp =>
      h.append (h.append (h.quote _) (h.ascii rfl)) (h.written (hfinite p hp))
  exact h.append (s := [123]) (h.ascii rfl)
    (h.append (h.join hmembers) (h.ascii rfl))

end Closed

/-- The object is valid UTF-8, whatever bytes its texts have. -/
theorem isValid_writeObject {pairs : List (String × Datum)}
    (hfinite : ∀ p ∈ pairs, p.2.IsFinite) :
    Utf8.isValid (writeObject (writtenPairs pairs)) = true :=
  closed_isValid.writeObject hfinite

end Data

end Json
end TickRelay
