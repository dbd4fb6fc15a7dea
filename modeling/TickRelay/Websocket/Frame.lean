import TickRelay.Bytes

/-!
# Websocket frames

A frame is a header and a payload. The header has a final flag, three reserved
bits, an operation code of four bits, a length in one of three forms and,
towards a server, a mask of four bytes.

**Results.** `Header.read` takes a header off a stream; it tells a stream that
ends before the header, or right after its first two bytes, from one that ends
elsewhere inside. `Header.violation?` is the first rule that a header breaks.
`frame` writes a final frame without mask.
-/

namespace TickRelay
namespace Websocket

/-- Why nothing more is read from a stream. -/
inductive ReadError where
  | endOfStream
  | unexpectedEnd
  | lengthTooLong
  | reservedOpcode
  | controlTooLong
  | controlNotFinal
  | reservedBits
  | maskRequired
  | maskUnexpected
  | continuationExpected
  | continuationUnexpected
  | invalidText
  | tooBig
  | statusNotInUse
  | statusApplicationLevel
  | statusNoMeaning
  | statusUndefined
  | invalidCloseReason
  /-- The peer closed in good order. -/
  | closed (code : Nat) (reason : Bytes)
  deriving DecidableEq, Repr

namespace ReadError

/-- The error in words. -/
def text : ReadError → Bytes
  | endOfStream => utf8 "EOF"
  | unexpectedEnd => utf8 "unexpected EOF"
  | lengthTooLong => utf8 "header error: the most significant bit must be 0"
  | reservedOpcode => utf8 "use of reserved op code"
  | controlTooLong => utf8 "control frame payload limit exceeded"
  | controlNotFinal => utf8 "control frame is not final"
  | reservedBits => utf8 "non-zero rsv bits with no extension negotiated"
  | maskRequired => utf8 "frames from client to server must be masked"
  | maskUnexpected => utf8 "frames from server to client must be not masked"
  | continuationExpected => utf8 "unexpected non-continuation data frame"
  | continuationUnexpected => utf8 "unexpected continuation data frame"
  | invalidText => utf8 "invalid utf8"
  | tooBig => utf8 "message too big"
  | statusNotInUse => utf8 "status code is not in use"
  | statusApplicationLevel => utf8 "status code is only application level"
  | statusNoMeaning => utf8 "status code has no meaning yet"
  | statusUndefined => utf8 "status code is not defined in spec"
  | invalidCloseReason => utf8 "invalid utf8 sequence in close reason"
  | closed code reason =>
    utf8 "ws closed: " ++ Bytes.decimal code ++ utf8 " " ++ reason

end ReadError

/-- Who reads: a server takes masked frames, a client frames without mask. -/
inductive Role where
  | server
  | client
  deriving DecidableEq, Repr

/-- The meaning of a frame. -/
inductive Opcode where
  | continuation
  | text
  | binary
  | close
  | ping
  | pong
  /-- A code without meaning. -/
  | reserved (code : Nat)
  deriving DecidableEq, Repr

namespace Opcode

/-- The meaning of a code. -/
def ofCode : Nat → Opcode
  | 0 => continuation
  | 1 => text
  | 2 => binary
  | 8 => close
  | 9 => ping
  | 10 => pong
  | n => reserved n

/-- The code of a meaning. -/
def code : Opcode → Nat
  | continuation => 0
  | text => 1
  | binary => 2
  | close => 8
  | ping => 9
  | pong => 10
  | reserved n => n

/-- Whether a frame is about the connection and not part of a message. -/
def isControl : Opcode → Bool
  | close | ping | pong => true
  | _ => false

/-- Whether a code has no meaning. -/
def isReserved : Opcode → Bool
  | reserved _ => true
  | _ => false

end Opcode

/-- The header of a frame; the mask is empty or has four bytes. -/
structure Header where
  isFinal : Bool
  reservedBits : Nat
  opcode : Opcode
  mask : Bytes
  length : Nat
  deriving DecidableEq, Repr

namespace Header

/-- A number written in bytes, the most significant first. -/
def bigEndian (s : Bytes) : Nat := s.foldl (fun n b => 256 * n + b.toNat) 0

/-- How many bytes the length takes beyond the second byte. -/
def lengthBytes (short : Nat) : Nat :=
  if short = 126 then 2 else if short = 127 then 8 else 0

/-- Takes a header off a stream. -/
def read : Bytes → Except ReadError (Header × Bytes)
  | [] => .error .endOfStream
  | [_] => .error .unexpectedEnd
  | a :: b :: s =>
    let short := b.toNat % 128
    let extra := lengthBytes short
    let masked := 128 ≤ b.toNat
    let more := extra + if masked then 4 else 0
    if s.length < more then
      .error (if s = [] then .endOfStream else .unexpectedEnd)
    else
      let length := if extra = 0 then short else bigEndian (s.take extra)
      if Nat.pow 2 63 ≤ length then .error .lengthTooLong
      else .ok (⟨128 ≤ a.toNat, a.toNat / 16 % 8, .ofCode (a.toNat % 16),
        (s.take more).drop extra, length⟩, s.drop more)

/-- The first rule that a header breaks, inside or outside of a fragmented
message. -/
def violation? (role : Role) (fragmented : Bool) (h : Header) :
    Option ReadError :=
  if h.opcode.isReserved then some .reservedOpcode
  else if h.opcode.isControl && 125 < h.length then some .controlTooLong
  else if h.opcode.isControl && !h.isFinal then some .controlNotFinal
  else if h.reservedBits ≠ 0 then some .reservedBits
  else if role = .server ∧ h.mask = [] then some .maskRequired
  else if role = .client ∧ h.mask ≠ [] then some .maskUnexpected
  else if fragmented && !h.opcode.isControl && h.opcode != .continuation then
    some .continuationExpected
  else if !fragmented && h.opcode == .continuation then
    some .continuationUnexpected
  else none

end Header

/-- Applies a mask: byte after byte with the bytes of the mask in turn. -/
def unmask (mask s : Bytes) : Bytes :=
  match mask with
  | [a, b, c, d] => fromStart a b c d s
  | _ => s
where
  /-- Applies the mask that starts with `a`. -/
  fromStart (a b c d : UInt8) : Bytes → Bytes
    | [] => []
    | x :: s => (x ^^^ a) :: fromStart b c d a s

/-- A number in a fixed number of bytes, the most significant first. -/
def bytesOf : Nat → Nat → Bytes
  | 0, _ => []
  | k + 1, n => bytesOf k (n / 256) ++ [UInt8.ofNat (n % 256)]

/-- The length field of a frame without mask, in its shortest form. -/
def lengthField (n : Nat) : Bytes :=
  if n < 126 then [UInt8.ofNat n]
  else if n < 65536 then 126 :: bytesOf 2 n
  else 127 :: bytesOf 8 n

/-- A final frame without mask. -/
def frame (op : Opcode) (payload : Bytes) : Bytes :=
  UInt8.ofNat (128 + op.code) :: (lengthField payload.length ++ payload)

end Websocket
end TickRelay
