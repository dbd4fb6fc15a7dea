import TickRelay.Proofs.Utf8RoundTrip
import TickRelay.Proofs.WireFrames

/-!
# Messages do not depend on their framing

**Input.** What a peer in good order sends: texts and binary messages, cut into
chunks in any way, with pings and pongs between frames and between the chunks
of a message.

**Results.** `reads_traffic_iff`: the reader gives back the texts, whole and in
order, and answers the pings, for every limit but the largest 64-bit number.
With that one the count of the bytes that may be read wraps, and the bytes of a
text are read as frames.
-/

namespace TickRelay
namespace Websocket

/-- Whether a message may have some length. -/
def Side.Allows (length : Nat) : Side → Prop
  | .server maxSize => (length : Int) ≤ maxSize.toInt
  | .client => True

/-- A message in the chunks it is cut into, the later ones each after some
notices. -/
structure Message (role : Role) where
  first : Chunk role
  later : List (List (Notice role) × Chunk role)

namespace Message

variable {role : Role}

/-- The frames of the later chunks. -/
def laterBytes : List (List (Notice role) × Chunk role) → Bytes
  | [] => []
  | (notices, c) :: later =>
    notices.flatMap Notice.bytes ++
      (c.bytes later.isEmpty .continuation ++ laterBytes later)

/-- The frames of a message. -/
def bytes (op : Opcode) (m : Message role) : Bytes :=
  m.first.bytes m.later.isEmpty op ++ laterBytes m.later

/-- The payload of a message. -/
def content (m : Message role) : Bytes :=
  m.first.payload ++ m.later.flatMap fun part => part.2.payload

/-- The replies to the notices inside a message. -/
def replies (m : Message role) : List Reply :=
  m.later.flatMap fun part => part.1.filterMap Notice.reply?

end Message

/-- What a peer in good order sends to a side between two messages or as
one. -/
inductive Item (side : Side) where
  | notice (n : Notice side.role)
  | text (m : Message side.role) (isValid : Utf8.isValid m.content = true)
      (isAllowed : side.Allows m.content.length)
  | binary (m : Message side.role)
      (isAllowed : side.Allows m.first.payload.length)

namespace Item

variable {side : Side}

/-- The bytes on the wire. -/
def bytes : Item side → Bytes
  | notice n => n.bytes
  | text m _ _ => m.bytes .text
  | binary m _ => m.bytes .binary

/-- The texts. -/
def texts : Item side → List Bytes
  | text m _ _ => [m.content]
  | _ => []

/-- The replies that are due. -/
def replies : Item side → List Reply
  | notice n => n.reply?.toList
  | text m _ _ => m.replies
  | binary m _ => m.replies

end Item

section Limits

variable {side : Side} {length : Nat}

theorem Side.Allows.mono {shorter : Nat} (h : side.Allows length)
    (hle : shorter ≤ length) : side.Allows shorter := by
  cases side with
  | server maxSize => exact Int.le_trans (Int.ofNat_le.mpr hle) h
  | client => trivial

theorem refuses_eq_false (h : side.Allows length) :
    side.refuses length = false := by
  cases side with
  | server maxSize => exact decide_eq_false (Int.not_lt.mpr h)
  | client => rfl

theorem toInt_add_one {maxSize : Int64} (hmax : maxSize ≠ Int64.maxValue) :
    (maxSize + 1).toInt = maxSize.toInt + 1 := by
  have hle : maxSize.toInt ≤ 2 ^ 63 - 1 := Int64.toInt_le maxSize
  have hlt : maxSize.toInt < 2 ^ 63 - 1 :=
    Int.lt_iff_le_and_ne.mpr ⟨hle, fun heq => hmax (Int64.toInt_inj.mp heq)⟩
  have hge : -2 ^ 63 ≤ maxSize.toInt := Int64.le_toInt maxSize
  rw [Int64.toInt_add, Int64.toInt_one]
  exact Int.bmod_eq_of_le (by omega) (by omega)

/-- Below the largest number there is always room for one byte more than is
allowed. -/
theorem lt_budget (hside : side ≠ .server Int64.maxValue)
    (h : side.Allows length) {n : Nat} (hn : side.budget? = some n) :
    length < n := by
  cases side with
  | client => cases hn
  | server maxSize =>
    cases hn
    have hlength : (length : Int) ≤ maxSize.toInt := h
    rw [toInt_add_one fun heq => hside (by rw [heq])]
    omega

end Limits

section Reading

variable {side : Side} {phase : Phase}

theorem readFrom_notices (notices : List (Notice side.role)) (rest : Bytes) :
    readFrom side phase (notices.flatMap Notice.bytes ++ rest) =
      (readFrom side phase rest).prepend []
        (notices.filterMap Notice.reply?) := by
  induction notices with
  | nil => rfl
  | cons n notices ih =>
    rw [List.flatMap_cons, List.append_assoc,
      readFrom_of_more (step_notice n _), ih, Transcript.prepend_prepend,
      List.filterMap_cons]
    cases n.reply? <;> rfl

/-- From a frame on that the reader takes as the next part of a text,
to the end of that text. -/
theorem readFrom_text {soFar : Bytes} {state : Utf8.State} {op : Opcode}
    (c : Chunk side.role)
    (later : List (List (Notice side.role) × Chunk side.role)) (rest : Bytes)
    (hstep : ∀ s, step side phase (c.bytes later.isEmpty op ++ s) =
      textFrame side soFar state (c.header later.isEmpty op)
      (unmask c.mask c.payload ++ s))
    (hroom : ∀ n, side.budget? = some n →
      soFar.length + (Message.content ⟨c, later⟩).length < n)
    (hvalid : Utf8.State.run state (Message.content ⟨c, later⟩) =
      some .start) :
    readFrom side phase (c.bytes later.isEmpty op ++
        (Message.laterBytes later ++ rest)) =
      (readAll side rest).prepend [soFar ++ Message.content ⟨c, later⟩]
        (Message.replies ⟨c, later⟩) := by
  induction later generalizing phase soFar state op c with
  | nil =>
    have hcontent : Message.content ⟨c, []⟩ = c.payload := List.append_nil _
    rw [hcontent] at hroom hvalid ⊢
    refine readFrom_of_message ((hstep _).trans ?_)
    exact textFrame_chunk c rest hroom hvalid fun _ => rfl
  | cons part later ih =>
    obtain ⟨notices, next⟩ := part
    have hcontent : Message.content ⟨c, (notices, next) :: later⟩ =
        c.payload ++ Message.content ⟨next, later⟩ := rfl
    rw [hcontent, Utf8.State.run_append] at hvalid
    obtain ⟨reached, hrun, hvalid⟩ := Option.bind_eq_some_iff.mp hvalid
    rw [hcontent] at hroom ⊢
    have hpart : ∀ n, side.budget? = some n →
        soFar.length + c.payload.length < n := by
      intro n hn
      have hlt := hroom n hn
      rw [List.length_append] at hlt
      omega
    have hafter : ∀ n, side.budget? = some n →
        (soFar ++ c.payload).length + (Message.content ⟨next, later⟩).length <
          n := by
      intro n hn
      rw [List.length_append, Nat.add_assoc, ← List.length_append]
      exact hroom n hn
    have hmore (s : Bytes) : step side phase (c.bytes false op ++ s) =
        .more (.text (soFar ++ c.payload) reached) none s :=
      (hstep s).trans (textFrame_chunk c s hpart hrun nofun)
    have hnext :=
      ih next (fun s => step_laterText next later.isEmpty s) hafter hvalid
    refine (readFrom_of_more (hmore _)).trans ?_
    rw [Message.laterBytes, List.append_assoc, List.append_assoc,
      readFrom_notices, hnext, Transcript.prepend_prepend,
      Transcript.prepend_prepend, List.append_assoc soFar]
    rfl

/-- The same for a binary message, of which nothing is kept. -/
theorem readFrom_binary {op : Opcode} (c : Chunk side.role)
    (later : List (List (Notice side.role) × Chunk side.role)) (rest : Bytes)
    (hstep : ∀ s, step side phase (c.bytes later.isEmpty op ++ s) =
      .more (if later.isEmpty then .idle else .binary) none s) :
    readFrom side phase (c.bytes later.isEmpty op ++
        (Message.laterBytes later ++ rest)) =
      (readAll side rest).prepend [] (Message.replies ⟨c, later⟩) := by
  induction later generalizing phase op c with
  | nil =>
    rw [readAll_eq_readFrom]
    exact readFrom_of_more (hstep _)
  | cons part later ih =>
    obtain ⟨notices, next⟩ := part
    have hnext := ih next (step_laterBinary next later.isEmpty)
    refine (readFrom_of_more (hstep _)).trans ?_
    rw [Message.laterBytes, List.append_assoc, List.append_assoc]
    rw [if_neg (by simp), readFrom_notices, hnext, Transcript.prepend_prepend,
      Transcript.prepend_prepend]
    rfl

theorem readAll_item (hside : side ≠ .server Int64.maxValue) (item : Item side)
    (rest : Bytes) :
    readAll side (item.bytes ++ rest) =
      (readAll side rest).prepend item.texts item.replies := by
  rw [readAll_eq_readFrom]
  cases item with
  | notice n =>
    rw [readAll_eq_readFrom]
    exact readFrom_of_more (step_notice n rest)
  | text m hvalid hallowed =>
    have hroom : ∀ n, side.budget? = some n → m.content.length < n :=
      fun n => lt_budget hside hallowed
    have hbudget : side.budget? ≠ some 0 :=
      fun h => absurd (hroom 0 h) (Nat.not_lt_zero _)
    have hfirst : side.Allows m.first.payload.length :=
      Side.Allows.mono hallowed
        (by rw [Message.content, List.length_append]; omega)
    rw [Item.bytes, Message.bytes, List.append_assoc]
    have hstep := fun s =>
      step_firstText m.first m.later.isEmpty s (refuses_eq_false hfirst)
        hbudget
    refine readFrom_text m.first m.later rest hstep (fun n hn => ?_)
      (beq_iff_eq.mp hvalid)
    rw [List.length_nil, Nat.zero_add]
    exact hroom n hn
  | binary m hallowed =>
    rw [Item.bytes, Message.bytes, List.append_assoc]
    exact readFrom_binary m.first m.later rest fun s =>
      step_firstBinary m.first m.later.isEmpty s (refuses_eq_false hallowed)

theorem readAll_items (hside : side ≠ .server Int64.maxValue)
    (items : List (Item side)) (rest : Bytes) :
    readAll side (items.flatMap Item.bytes ++ rest) =
      (readAll side rest).prepend (items.flatMap Item.texts)
        (items.flatMap Item.replies) := by
  induction items with
  | nil => rfl
  | cons item items ih =>
    rw [List.flatMap_cons, List.append_assoc, readAll_item hside, ih,
      Transcript.prepend_prepend]
    rfl

end Reading

/-- A text of two bytes in one frame, for a server with the largest limit. -/
def Item.greeting : Item (.server Int64.maxValue) :=
  .text ⟨⟨utf8 "hi", .short (by decide), [0, 0, 0, 0], rfl⟩, []⟩ (by decide)
    (by decide : (2 : Int) ≤ Int64.maxValue.toInt)

theorem readAll_greeting :
    readAll (.server Int64.maxValue) Item.greeting.bytes =
      ⟨[[]], .controlNotFinal, []⟩ := by
  decide

/-- Whatever is cut and masked in whatever way, the reader gives back the texts
and answers the pings, and goes on after them as if the stream began there: for
every limit but the largest one. -/
theorem reads_traffic_iff (side : Side) :
    (∀ items : List (Item side),
      readAll side (items.flatMap Item.bytes) =
        ⟨items.flatMap Item.texts, .endOfStream, items.flatMap Item.replies⟩ ∧
      ∀ rest, readAll side (items.flatMap Item.bytes ++ rest) =
        (readAll side rest).prepend (items.flatMap Item.texts)
          (items.flatMap Item.replies)) ↔
      side ≠ .server Int64.maxValue := by
  constructor
  · rintro hreads rfl
    have htexts :=
      congrArg Transcript.payloads
        ((hreads [.greeting]).1.symm.trans readAll_greeting)
    revert htexts
    decide
  · intro hside items
    have hrest := readAll_items hside items
    refine ⟨?_, hrest⟩
    have hnil := hrest []
    rwa [List.append_nil, readAll_nil, Transcript.prepend, List.append_nil,
      List.append_nil] at hnil

/-- With the largest limit a text is lost: the reader takes it for empty, and
its bytes for the header of the next frame. -/
theorem text_lost_at_largest_limit :
    ∃ items : List (Item (.server Int64.maxValue)),
      items.flatMap Item.bytes = [0x81, 0x82, 0, 0, 0, 0, 0x68, 0x69] ∧
      items.flatMap Item.texts = [utf8 "hi"] ∧
      readAll (.server Int64.maxValue) (items.flatMap Item.bytes) =
        ⟨[[]], .controlNotFinal, []⟩ :=
  ⟨[.greeting], by decide, rfl, readAll_greeting⟩

end Websocket
end TickRelay
