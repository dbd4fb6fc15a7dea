import TickRelay.Websocket.Control

/-!
# Messages of a websocket

**Input.** The bytes of a stream, up to its end.

**Algorithm.** A reader goes from frame to frame. Between messages, and between
the fragments of one, control frames are answered at once. Binary messages are
passed over. The text of a message is checked byte by byte as it arrives; a
server stops as soon as it has more than its maximum, and refuses a first frame
that announces more. A frame whose payload is cut off by the end of the stream
is an error, with three exceptions: the payload of a binary frame may be cut
off, a ping between fragments is answered with what there is of it, and a close
between fragments of which nothing has come ends the message.

**Results.** `next` reads one message, `readAll` all of them; both tell the
replies sent.
-/

namespace TickRelay
namespace Websocket

/-- Who reads, and for a server how long a message may be. -/
inductive Side where
  | server (maxSize : Int64)
  | client
  deriving DecidableEq

namespace Side

/-- The role of a side. -/
def role : Side → Role
  | server _ => .server
  | client => .client

/-- Whether a first frame of some length is refused. -/
def refuses (length : Nat) : Side → Bool
  | server maxSize => maxSize.toInt < length
  | client => false

/-- How many bytes of a text are read at most: one more than allowed, in 64
bits. -/
def budget? : Side → Option Nat
  | server maxSize => some (maxSize + 1).toInt.toNat
  | client => none

end Side

/-- Where a reader stands between two frames. -/
inductive Phase where
  /-- Between messages. -/
  | idle
  /-- Inside a text, of which the bytes so far are known. -/
  | text (soFar : Bytes) (state : Utf8.State)
  /-- Inside a binary message. -/
  | binary
  deriving DecidableEq

namespace Phase

/-- Whether a message is unfinished. -/
def isFragmented : Phase → Bool
  | idle => false
  | _ => true

end Phase

/-- What one frame does to a reader. -/
inductive Step where
  /-- Reading goes on. -/
  | more (phase : Phase) (reply : Option Reply) (rest : Bytes)
  /-- A text is complete. -/
  | message (payload : Bytes) (rest : Bytes)
  /-- Reading ends. -/
  | stop (error : ReadError) (reply : Option Reply)
  deriving DecidableEq

/-- A frame of a text: `soFar` was read before it. -/
def textFrame (side : Side) (soFar : Bytes) (state : Utf8.State) (h : Header)
    (rest : Bytes) : Step :=
  let there := unmask h.mask (rest.take h.length)
  let room := side.budget?.map (· - soFar.length)
  let part := match room with
    | some n => there.take n
    | none => there
  match Utf8.State.run state part with
  | none => .stop .invalidText none
  | some reached =>
    let isWhole := part.length = h.length
    let isFull := room = some part.length
    if isWhole ∧ h.isFinal ∧ reached ≠ .start then .stop .invalidText none
    else if isFull then .stop .tooBig none
    else if ¬isWhole then .stop .unexpectedEnd none
    else if h.isFinal then .message (soFar ++ part) (rest.drop h.length)
    else .more (.text (soFar ++ part) reached) none (rest.drop h.length)

/-- The first frame of a text. A limit that wraps to nothing reads nothing: the
text is empty and its bytes stay on the stream. -/
def firstTextFrame (side : Side) (h : Header) (rest : Bytes) : Step :=
  if side.budget? = some 0 then .message [] rest
  else textFrame side [] .start h rest

/-- A frame of a binary message. -/
def binaryFrame (h : Header) (rest : Bytes) : Step :=
  .more (if h.isFinal then .idle else .binary) none (rest.drop h.length)

/-- A control frame between messages. -/
def controlBetween (h : Header) (rest : Bytes) : Step :=
  if rest.length < h.length then .stop .unexpectedEnd none
  else
    let payload := unmask h.mask (rest.take h.length)
    let rest := rest.drop h.length
    match h.opcode with
    | .ping => .more .idle (some (.pong payload)) rest
    | .close =>
      let (reply, e) := answerClose payload
      .stop e (some reply)
    | _ => .more .idle none rest

/-- A control frame between fragments. -/
def controlInside (phase : Phase) (h : Header) (rest : Bytes) : Step :=
  let there := unmask h.mask (rest.take h.length)
  let rest := rest.drop h.length
  match h.opcode with
  | .ping =>
    .more phase
      (if h.length ≠ 0 ∧ there = [] then none else some (.pong there)) rest
  | .close =>
    if there.length = h.length then
      let (reply, e) := answerClose there
      .stop e (some reply)
    else if there ≠ [] then .stop .unexpectedEnd none
    else match phase with
      | .text soFar _ => .message soFar rest
      | _ => .stop .endOfStream none
  | _ => .more phase none rest

/-- Reads one frame. -/
def step (side : Side) (phase : Phase) (s : Bytes) : Step :=
  match Header.read s with
  | .error .endOfStream =>
    .stop (if phase.isFragmented then .unexpectedEnd else .endOfStream) none
  | .error e => .stop e none
  | .ok (h, rest) =>
    match h.violation? side.role phase.isFragmented with
    | some e => .stop e none
    | none =>
      match phase with
      | .idle =>
        if h.opcode.isControl then controlBetween h rest
        else if side.refuses h.length then .stop .tooBig none
        else if h.opcode = .text then firstTextFrame side h rest
        else binaryFrame h rest
      | .text soFar state =>
        if h.opcode.isControl then controlInside phase h rest
        else textFrame side soFar state h rest
      | .binary =>
        if h.opcode.isControl then controlInside phase h rest
        else binaryFrame h rest

/-- What reading one message comes to: the replies sent, and the text with the
rest of the stream or the reason why there is none. -/
structure Outcome where
  replies : List Reply
  result : Except ReadError (Bytes × Bytes)

/-- Reads one message, in at most `fuel` frames. -/
def nextWithin (side : Side) : Nat → Phase → Bytes → Outcome
  | 0, _, _ => ⟨[], .error .endOfStream⟩
  | fuel + 1, phase, s =>
    match step side phase s with
    | .stop e reply => ⟨reply.toList, .error e⟩
    | .message payload rest => ⟨[], .ok (payload, rest)⟩
    | .more phase reply rest =>
      let o := nextWithin side fuel phase rest
      ⟨reply.toList ++ o.replies, o.result⟩

/-- Reads one message. Every frame takes at least two bytes, so the length of
the stream bounds their number. -/
def next (side : Side) (s : Bytes) : Outcome :=
  nextWithin side (s.length + 1) .idle s

/-- All texts of a stream, the error that ends it, and the replies sent. -/
structure Transcript where
  payloads : List Bytes
  error : ReadError
  replies : List Reply
  deriving DecidableEq

/-- Reads all messages, at most `fuel` of them. -/
def readAllWithin (side : Side) : Nat → Bytes → Transcript
  | 0, _ => ⟨[], .endOfStream, []⟩
  | fuel + 1, s =>
    let o := next side s
    match o.result with
    | .error e => ⟨[], e, o.replies⟩
    | .ok (payload, rest) =>
      let t := readAllWithin side fuel rest
      ⟨payload :: t.payloads, t.error, o.replies ++ t.replies⟩

/-- Reads all messages. -/
def readAll (side : Side) (s : Bytes) : Transcript :=
  readAllWithin side (s.length + 1) s

end Websocket
end TickRelay
