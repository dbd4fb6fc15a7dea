import TickRelay.Utf8
import TickRelay.Websocket.Frame

/-!
# Control frames

A ping is answered by a pong with the same payload, a pong is ignored. A close
is answered by a close: empty for an empty one, with the same status code for
an acceptable one, and otherwise with code 1002 and the reason of the
complaint. After a close nothing more is read.
-/

namespace TickRelay
namespace Websocket

/-- A control frame that is sent in answer to one. -/
inductive Reply where
  | pong (payload : Bytes)
  | close (body : Bytes)
  /-- A close with code 1002 that complains about the peer's close. -/
  | complain (reason : Bytes)
  deriving DecidableEq, Repr

namespace Reply

/-- The operation code. -/
def opcode : Reply → Opcode
  | pong _ => .pong
  | _ => .close

/-- The payload. -/
def payload : Reply → Bytes
  | pong p => p
  | close body => body
  | complain reason => bytesOf 2 1002 ++ reason

/-- The frame without mask. -/
def bytes (r : Reply) : Bytes := frame r.opcode r.payload

end Reply

/-- What is wrong with the body of a close. -/
def closeViolation? (code : Nat) (reason : Bytes) : Option ReadError :=
  if code < 1000 then some .statusNotInUse
  else if code = 1005 ∨ code = 1006 ∨ code = 1015 then
    some .statusApplicationLevel
  else if code = 1004 then some .statusNoMeaning
  else if code < 3000 ∧ ¬(code ≤ 1003 ∨ (1007 ≤ code ∧ code ≤ 1011)) then
    some .statusUndefined
  else if !Utf8.isValid reason then some .invalidCloseReason
  else none

/-- The status code and reason of a close body; a body of one byte has code
0. -/
def closeBody : Bytes → Nat × Bytes
  | a :: b :: reason => (256 * a.toNat + b.toNat, reason)
  | _ => (0, [])

/-- The reply to a close with a given body, and why reading ends. -/
def answerClose (body : Bytes) : Reply × ReadError :=
  if body = [] then (.close [], .closed 1005 [])
  else
    let (code, reason) := closeBody body
    match closeViolation? code reason with
    | some e => (.complain e.text, e)
    | none => (.close (body.take 2), .closed code reason)

end Websocket
end TickRelay
