import TickRelay.Proofs.MessageReading
import Mathlib.Algebra.Order.Ring.Nat

/-!
# Frames on the wire

A chunk is a payload together with the form of its length and its mask, as one
side of a connection writes it for the other. The form is any of the three that
the length has a place in.

**Results.** `read_bytes`: the header of a chunk is read back, whatever follows
it. `step_notice`: a ping or a pong between two frames leaves the reader where
it was.
-/

namespace TickRelay
namespace Websocket

section Numbers

theorem length_bytesOf (k n : Nat) : (bytesOf k n).length = k := by
  induction k generalizing n with
  | zero => rfl
  | succ k ih => rw [bytesOf, List.length_append, ih, List.length_singleton]

theorem bigEndian_concat (s : Bytes) (b : UInt8) :
    Header.bigEndian (s ++ [b]) = 256 * Header.bigEndian s + b.toNat := by
  rw [Header.bigEndian, Header.bigEndian, List.foldl_append]
  rfl

theorem bigEndian_bytesOf {k n : Nat} (h : n < 256 ^ k) :
    Header.bigEndian (bytesOf k n) = n := by
  induction k generalizing n with
  | zero =>
    have hn : n = 0 := Nat.lt_one_iff.mp h
    rw [hn]
    rfl
  | succ k ih =>
    have hdiv : n / 256 < 256 ^ k :=
      Nat.div_lt_of_lt_mul (by rwa [Nat.pow_succ'] at h)
    rw [bytesOf, bigEndian_concat, ih hdiv, UInt8.toNat_ofNat']
    omega

end Numbers

section Masks

variable {mask s : Bytes}

theorem length_fromStart (a b c d : UInt8) (s : Bytes) :
    (unmask.fromStart a b c d s).length = s.length := by
  induction s generalizing a b c d with
  | nil => rfl
  | cons x s ih =>
    rw [unmask.fromStart, List.length_cons, ih, List.length_cons]

theorem fromStart_fromStart (a b c d : UInt8) (s : Bytes) :
    unmask.fromStart a b c d (unmask.fromStart a b c d s) = s := by
  induction s generalizing a b c d with
  | nil => rfl
  | cons x s ih =>
    rw [unmask.fromStart, unmask.fromStart, ih, UInt8.xor_assoc,
      UInt8.xor_self, UInt8.xor_zero]

@[simp] theorem length_unmask : (unmask mask s).length = s.length := by
  unfold unmask
  split
  · exact length_fromStart ..
  · rfl

@[simp] theorem unmask_nil : unmask mask [] = [] :=
  List.length_eq_zero_iff.mp length_unmask

/-- A mask applied twice is none. -/
@[simp] theorem unmask_unmask : unmask mask (unmask mask s) = s := by
  unfold unmask
  split
  · exact fromStart_fromStart ..
  · rename_i hshape
    split
    · exact (hshape _ _ _ _ rfl).elim
    · rfl

end Masks

/-- How many bytes the mask of a frame has that is sent to a role. -/
def Role.maskLength : Role → Nat
  | .server => 4
  | .client => 0

/-- The forms in which a length may stand in a header. -/
inductive LengthForm (n : Nat) where
  | short (h : n < 126)
  | medium (h : n < 256 ^ 2)
  | long (h : n < 2 ^ 63)

namespace LengthForm

variable {n : Nat}

/-- The lower seven bits of the second byte. -/
def code : LengthForm n → Nat
  | short _ => n
  | medium _ => 126
  | long _ => 127

/-- The bytes after the second one. -/
def extra : LengthForm n → Bytes
  | short _ => []
  | medium _ => bytesOf 2 n
  | long _ => bytesOf 8 n

theorem code_lt (form : LengthForm n) : form.code < 128 := by
  cases form with
  | short h => exact Nat.lt_trans h (by decide)
  | medium _ => exact (by decide : 126 < 128)
  | long _ => exact (by decide : 127 < 128)

theorem length_extra (form : LengthForm n) :
    form.extra.length = Header.lengthBytes form.code := by
  cases form with
  | short h =>
    have hmedium : n ≠ 126 := by omega
    have hlong : n ≠ 127 := by omega
    rw [code, Header.lengthBytes, if_neg hmedium, if_neg hlong]
    rfl
  | medium _ => exact length_bytesOf 2 n
  | long _ => exact length_bytesOf 8 n

theorem lt (form : LengthForm n) : n < Nat.pow 2 63 := by
  cases form with
  | short h => exact Nat.lt_trans h (by decide)
  | medium h => exact Nat.lt_trans h (by decide)
  | long h => exact h

/-- Each form says the length. -/
theorem length_eq (form : LengthForm n) :
    (if Header.lengthBytes form.code =
        0 then form.code else Header.bigEndian form.extra) = n := by
  rw [← form.length_extra]
  cases form with
  | short h => rfl
  | medium h =>
    rw [extra, length_bytesOf, if_neg (by decide)]
    exact bigEndian_bytesOf h
  | long h =>
    rw [extra, length_bytesOf, if_neg (by decide)]
    exact bigEndian_bytesOf (Nat.lt_trans h (by decide))

end LengthForm

/-- A byte of seven bits below a flag. -/
def flagged (flag : Bool) (n : Nat) : UInt8 :=
  UInt8.ofNat (128 * flag.toNat + n)

section Flags

variable {flag : Bool} {n : Nat}

theorem toNat_flagged (hn : n < 128) :
    (flagged flag n).toNat = 128 * flag.toNat + n := by
  have hflag := flag.toNat_le
  rw [flagged, UInt8.toNat_ofNat']
  omega

theorem flagged_mod (hn : n < 128) : (flagged flag n).toNat % 128 = n := by
  rw [toNat_flagged hn]
  omega

theorem le_flagged_iff (hn : n < 128) :
    128 ≤ (flagged flag n).toNat ↔ flag = true := by
  rw [toNat_flagged hn]
  cases flag with
  | true => exact ⟨fun _ => rfl, fun _ => by rw [Bool.toNat_true]; omega⟩
  | false => exact ⟨fun h => absurd h (by rw [Bool.toNat_false]; omega), nofun⟩

end Flags

/-- A payload as it is sent to a role. -/
structure Chunk (role : Role) where
  payload : Bytes
  form : LengthForm payload.length
  mask : Bytes
  length_mask : mask.length = role.maskLength

namespace Chunk

variable {role : Role}

/-- The header of a frame. -/
def header (c : Chunk role) (isFinal : Bool) (op : Opcode) : Header :=
  ⟨isFinal, 0, op, c.mask, c.payload.length⟩

@[simp] theorem header_isFinal (c : Chunk role) (isFinal : Bool)
    (op : Opcode) : (c.header isFinal op).isFinal = isFinal := rfl

@[simp] theorem header_opcode (c : Chunk role) (isFinal : Bool) (op : Opcode) :
    (c.header isFinal op).opcode = op := rfl

@[simp] theorem header_mask (c : Chunk role) (isFinal : Bool) (op : Opcode) :
    (c.header isFinal op).mask = c.mask := rfl

@[simp] theorem header_length (c : Chunk role) (isFinal : Bool) (op : Opcode) :
    (c.header isFinal op).length = c.payload.length := rfl

/-- The bytes of a frame. -/
def bytes (c : Chunk role) (isFinal : Bool) (op : Opcode) : Bytes :=
  flagged isFinal op.code :: flagged (role == .server) c.form.code ::
    (c.form.extra ++ (c.mask ++ unmask c.mask c.payload))

theorem maskLength_eq :
    role.maskLength = if (role == .server) = true then 4 else 0 := by
  cases role <;> rfl

/-- The first byte of a frame tells its flag and its meaning, and no reserved
bit. -/
theorem read_first (isFinal : Bool) {op : Opcode}
    (hop : op.isReserved = false) :
    decide (128 ≤ (flagged isFinal op.code).toNat) = isFinal ∧
      (flagged isFinal op.code).toNat / 16 % 8 = 0 ∧
        Opcode.ofCode ((flagged isFinal op.code).toNat % 16) = op := by
  obtain ⟨hcode, hmeaning⟩ : op.code < 16 ∧ Opcode.ofCode op.code = op := by
    cases op with
    | reserved n => cases hop
    | _ => exact ⟨by decide, rfl⟩
  have hbyte :
      (flagged isFinal op.code).toNat = 128 * isFinal.toNat + op.code :=
    toNat_flagged (by omega)
  have hlow : (128 * isFinal.toNat + op.code) % 16 = op.code := by omega
  refine ⟨?_, by omega, by rw [hbyte, hlow, hmeaning]⟩
  exact Bool.eq_iff_iff.mpr
    (decide_eq_true_iff.trans (le_flagged_iff (by omega)))

/-- The header of a frame is read back, whatever follows. -/
theorem read_bytes (c : Chunk role) (isFinal : Bool) {op : Opcode}
    (hop : op.isReserved = false) (rest : Bytes) :
    Header.read (c.bytes isFinal op ++ rest) =
      .ok (c.header isFinal op, unmask c.mask c.payload ++ rest) := by
  obtain ⟨hfinal, hbits, hmeaning⟩ := read_first isFinal hop
  have hmore :
      Header.lengthBytes c.form.code +
          (if (role == .server) = true then 4 else 0) =
        (c.form.extra ++ c.mask).length := by
    rw [← c.form.length_extra, ← maskLength_eq, ← c.length_mask,
      List.length_append]
  have hbody : c.form.extra ++ (c.mask ++ unmask c.mask c.payload) ++ rest =
      c.form.extra ++ c.mask ++ (unmask c.mask c.payload ++ rest) := by
    simp only [List.append_assoc]
  have hlong :
      ¬(c.form.extra ++ c.mask ++ (unmask c.mask c.payload ++ rest)).length <
        (c.form.extra ++ c.mask).length := by
    rw [List.length_append]
    omega
  have hlength :
      (c.form.extra ++ c.mask ++ (unmask c.mask c.payload ++ rest)).take
        (Header.lengthBytes c.form.code) = c.form.extra := by
    rw [← c.form.length_extra, List.append_assoc, List.take_left]
  have hmask :
      (c.form.extra ++ c.mask).drop (Header.lengthBytes c.form.code) =
        c.mask := by
    rw [← c.form.length_extra, List.drop_left]
  rw [bytes, List.cons_append, List.cons_append, hbody, Header.read]
  simp only [flagged_mod c.form.code_lt, le_flagged_iff c.form.code_lt, hmore,
    if_neg hlong, hlength, c.form.length_eq, if_neg (Nat.not_le.mpr c.form.lt),
    hfinal, hbits, hmeaning, List.take_left, List.drop_left, hmask]
  rfl

/-- A frame to the right role breaks no rule, if it stands where its meaning
has a place. -/
theorem violation?_header (c : Chunk role) {isFinal fragmented : Bool}
    {op : Opcode} (hop : op.isReserved = false)
    (hcontrol : op.isControl = true → c.payload.length ≤ 125 ∧ isFinal = true)
    (hplace : op.isControl = false →
      (op = .continuation ↔ fragmented = true)) :
    (c.header isFinal op).violation? role fragmented = none := by
  have hserver : ¬(role = .server ∧ c.mask = []) := by
    rintro ⟨rfl, hmask⟩
    have hlength := c.length_mask
    rw [hmask] at hlength
    cases hlength
  have hclient : ¬(role = .client ∧ c.mask ≠ []) := by
    rintro ⟨rfl, hmask⟩
    exact hmask (List.length_eq_zero_iff.mp c.length_mask)
  unfold Header.violation? header
  cases hkind : op.isControl with
  | true =>
    obtain ⟨hshort, rfl⟩ := hcontrol hkind
    have hcont : op ≠ .continuation := by
      rintro rfl
      cases hkind
    simp [hop, hserver, hclient, hshort, hcont]
  | false =>
    have hcont := hplace hkind
    cases fragmented with
    | true =>
      obtain rfl := hcont.mpr rfl
      simp [hop, hserver, hclient]
    | false => simp [hop, hserver, hclient, hcont]

/-- The payload of a frame is there and stands before the rest of the
stream. -/
@[simp] theorem unmask_take (c : Chunk role) (rest : Bytes) :
    unmask c.mask ((unmask c.mask c.payload ++ rest).take c.payload.length) =
      c.payload := by
  have hlength : (unmask c.mask c.payload).length = c.payload.length :=
    length_unmask
  rw [← hlength, List.take_left, unmask_unmask]

@[simp] theorem drop_payload (c : Chunk role) (rest : Bytes) :
    (unmask c.mask c.payload ++ rest).drop c.payload.length = rest := by
  have hlength : (unmask c.mask c.payload).length = c.payload.length :=
    length_unmask
  rw [← hlength, List.drop_left]

end Chunk

/-- A ping or a pong. -/
structure Notice (role : Role) extends Chunk role where
  isPing : Bool
  length_payload : payload.length ≤ 125

namespace Notice

def opcode {role : Role} (n : Notice role) : Opcode :=
  if n.isPing then .ping else .pong

/-- The bytes of the frame. -/
def bytes {role : Role} (n : Notice role) : Bytes :=
  n.toChunk.bytes true n.opcode

/-- The reply that is due. -/
def reply? {role : Role} (n : Notice role) : Option Reply :=
  if n.isPing then some (.pong n.payload) else none

end Notice

/-- What a frame that breaks no rule does to a reader. -/
def Phase.onFrame (side : Side) (h : Header) (rest : Bytes) : Phase → Step
  | .idle =>
    if h.opcode.isControl then controlBetween h rest
    else if side.refuses h.length then .stop .tooBig none
    else if h.opcode = .text then firstTextFrame side h rest
    else binaryFrame h rest
  | .text soFar state =>
    if h.opcode.isControl then controlInside (.text soFar state) h rest
    else textFrame side soFar state h rest
  | .binary =>
    if h.opcode.isControl then controlInside .binary h rest
    else binaryFrame h rest

section Steps

variable {role : Role} {side : Side} {phase : Phase}

theorem step_of_read {s rest : Bytes} {h : Header}
    (hread : Header.read s = .ok (h, rest))
    (hok : h.violation? side.role phase.isFragmented = none) :
    step side phase s = phase.onFrame side h rest := by
  unfold step
  rw [hread]
  dsimp only
  rw [hok]
  cases phase <;> rfl

theorem controlBetween_notice (n : Notice role) (rest : Bytes) :
    controlBetween (n.header true n.opcode) (unmask n.mask n.payload ++ rest) =
      .more .idle n.reply? rest := by
  have hwhole :
      ¬(unmask n.mask n.payload ++ rest).length < n.payload.length := by
    rw [List.length_append, length_unmask]
    omega
  unfold controlBetween
  simp only [Chunk.header_length, if_neg hwhole, Chunk.header_mask,
    Chunk.header_opcode, Chunk.unmask_take, Chunk.drop_payload,
    Notice.opcode, Notice.reply?]
  cases n.isPing <;> rfl

theorem controlInside_notice (n : Notice role) (rest : Bytes) :
    controlInside phase (n.header true n.opcode) (unmask n.mask n.payload ++
        rest) = .more phase n.reply? rest := by
  have hthere : ¬(n.payload.length ≠ 0 ∧ n.payload = []) := by
    rintro ⟨hlength, hnil⟩
    exact hlength (List.length_eq_zero_iff.mpr hnil)
  unfold controlInside
  simp only [Chunk.header_length, Chunk.header_mask, Chunk.header_opcode,
    Chunk.unmask_take, Chunk.drop_payload, if_neg hthere,
    Notice.opcode, Notice.reply?]
  cases n.isPing <;> rfl

/-- A notice is answered and leaves the reader where it was. -/
theorem step_notice (n : Notice side.role) (rest : Bytes) :
    step side phase (n.bytes ++ rest) = .more phase n.reply? rest := by
  have hop : n.opcode.isReserved = false := by
    cases hping : n.isPing <;> simp only [Notice.opcode, hping] <;> rfl
  have hcontrol : n.opcode.isControl = true := by
    cases hping : n.isPing <;> simp only [Notice.opcode, hping] <;> rfl
  have hok :
      (n.header true n.opcode).violation? side.role phase.isFragmented =
        none :=
    n.violation?_header hop (fun _ => ⟨n.length_payload, rfl⟩)
      (by simp [hcontrol])
  rw [Notice.bytes, step_of_read (n.read_bytes true hop rest) hok]
  cases phase with
  | idle => exact (if_pos hcontrol).trans (controlBetween_notice n rest)
  | text soFar state =>
    exact (if_pos hcontrol).trans (controlInside_notice n rest)
  | binary => exact (if_pos hcontrol).trans (controlInside_notice n rest)

/-- A frame of a text, of which there is room for every byte. -/
theorem textFrame_chunk (c : Chunk role) {isFinal : Bool} {op : Opcode}
    {soFar : Bytes} {state reached : Utf8.State} (rest : Bytes)
    (hroom : ∀ n, side.budget? = some n → soFar.length + c.payload.length < n)
    (hrun : Utf8.State.run state c.payload = some reached)
    (hend : isFinal = true → reached = .start) :
    textFrame side soFar state (c.header isFinal op)
        (unmask c.mask c.payload ++ rest) =
      if isFinal then .message (soFar ++ c.payload) rest
      else .more (.text (soFar ++ c.payload) reached) none rest := by
  unfold textFrame
  simp only [Chunk.header_length, Chunk.header_mask, Chunk.header_isFinal,
    Chunk.unmask_take, Chunk.drop_payload]
  have hwhole : ¬(isFinal = true ∧ reached ≠ .start) := fun h => h.2 (hend h.1)
  cases hbudget : side.budget? with
  | none =>
    simp only [Option.map_none, hrun, true_and, if_neg hwhole,
      not_true_eq_false, reduceCtorEq, if_false]
  | some n =>
    have hroom := hroom n hbudget
    have htake : c.payload.take (n - soFar.length) = c.payload :=
      List.take_of_length_le (by omega)
    have hfull : n - soFar.length ≠ c.payload.length := by omega
    simp only [Option.map_some, htake, hrun, true_and, if_neg hwhole,
      Option.some.injEq, hfull, not_true_eq_false, if_false]

/-- The first frame of a text, where the first byte that is too many can be
counted. -/
theorem step_firstText (c : Chunk side.role) (isFinal : Bool) (rest : Bytes)
    (hallowed : side.refuses c.payload.length = false)
    (hbudget : side.budget? ≠ some 0) :
    step side .idle (c.bytes isFinal .text ++ rest) =
      textFrame side [] .start (c.header isFinal .text)
        (unmask c.mask c.payload ++ rest) := by
  have hok :
      (c.header isFinal .text).violation? side.role Phase.idle.isFragmented =
        none :=
    c.violation?_header rfl nofun (by decide)
  rw [step_of_read (c.read_bytes isFinal rfl rest) hok]
  simp only [Phase.onFrame, Chunk.header_opcode, Chunk.header_length, hallowed,
    firstTextFrame, if_neg hbudget, if_true, Bool.false_eq_true, if_false]
  rfl

/-- A later frame of a text. -/
theorem step_laterText (c : Chunk side.role) (isFinal : Bool) {soFar : Bytes}
    {state : Utf8.State} (rest : Bytes) :
    step side (.text soFar state) (c.bytes isFinal .continuation ++ rest) =
      textFrame side soFar state (c.header isFinal .continuation)
        (unmask c.mask c.payload ++ rest) := by
  have hok : (c.header isFinal .continuation).violation? side.role
      (Phase.text soFar state).isFragmented = none :=
    c.violation?_header rfl nofun (by simp [Phase.isFragmented])
  rw [step_of_read (c.read_bytes isFinal rfl rest) hok]
  rfl

/-- A first frame of a binary message. -/
theorem step_firstBinary (c : Chunk side.role) (isFinal : Bool) (rest : Bytes)
    (hallowed : side.refuses c.payload.length = false) :
    step side .idle (c.bytes isFinal .binary ++ rest) =
      .more (if isFinal then .idle else .binary) none rest := by
  have hok :
      (c.header isFinal .binary).violation? side.role Phase.idle.isFragmented =
        none :=
    c.violation?_header rfl nofun (by decide)
  rw [step_of_read (c.read_bytes isFinal rfl rest) hok]
  simp only [Phase.onFrame, Chunk.header_opcode, Chunk.header_length, hallowed,
    binaryFrame, Chunk.drop_payload, Chunk.header_isFinal,
    Bool.false_eq_true, if_false]
  rfl

/-- A later frame of a binary message. -/
theorem step_laterBinary (c : Chunk side.role) (isFinal : Bool)
    (rest : Bytes) :
    step side .binary (c.bytes isFinal .continuation ++ rest) =
      .more (if isFinal then .idle else .binary) none rest := by
  have hok :
      (c.header isFinal .continuation).violation? side.role
        Phase.binary.isFragmented = none :=
    c.violation?_header rfl nofun (by decide)
  rw [step_of_read (c.read_bytes isFinal rfl rest) hok]
  simp only [Phase.onFrame, Chunk.header_opcode, Chunk.header_length,
    binaryFrame, Chunk.drop_payload, Chunk.header_isFinal]
  rfl

end Steps

end Websocket
end TickRelay
