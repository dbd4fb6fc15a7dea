import TickRelay.Proofs.Utf8RoundTrip
import TickRelay.Proofs.WireFrames

/-!
# The frames of any stream

**Input.** Any bytes. They begin with some frames: headers that can be read,
each with as many bytes of its payload as there are.

**Algorithm.** `frames` cuts a stream at its headers, whatever rules they
break. `textsFrom` puts fragments together: a text begins with a text frame and
ends with the next final frame that is not a control frame. Only the last frame
of a stream may lack a part of its payload.

**Results.** `move_step`: all that a frame can do to a reader, in terms of the
frames and texts of the stream. There are two ways in which a reader gives a
text that is none of the stream: a close without its body ends a text, and a
limit that wraps reads nothing.
-/

namespace TickRelay
namespace Websocket

/-- A frame with as much of its payload as the stream has, without the mask. -/
structure WireFrame where
  header : Header
  payload : Bytes
  deriving DecidableEq

namespace WireFrame

/-- The frame of a header and the bytes after it. -/
def ofRead (h : Header) (rest : Bytes) : WireFrame :=
  ⟨h, unmask h.mask (rest.take h.length)⟩

/-- Whether all of the payload is there. -/
def isWhole (f : WireFrame) : Bool := f.payload.length == f.header.length

def isControl (f : WireFrame) : Bool := f.header.opcode.isControl

def isPing (f : WireFrame) : Bool := f.header.opcode == .ping

/-- A close of which no more than the header is there. -/
def isBareClose (f : WireFrame) : Bool :=
  f.header.opcode == .close && f.payload.isEmpty

/-- The reply to a ping: none if a payload is announced and nothing of it is
there. -/
def reply? (f : WireFrame) : Option Reply :=
  if f.isPing ∧ (f.payload = [] → f.header.length = 0) then
    some (.pong f.payload)
  else none

end WireFrame

/-- The first frames of a stream. -/
def framesWithin : Nat → Bytes → List WireFrame
  | 0, _ => []
  | n + 1, s =>
    match Header.read s with
    | .error _ => []
    | .ok (h, rest) => .ofRead h rest :: framesWithin n (rest.drop h.length)

/-- The frames of a stream, up to the first header that cannot be read. -/
def frames (s : Bytes) : List WireFrame := framesWithin s.length s

/-- What there is of an unfinished message. -/
inductive Draft where
  | nothing
  | text (soFar : Bytes)
  | binary
  deriving DecidableEq

namespace Draft

/-- The text, if it is one. -/
def text? : Draft → Option Bytes
  | text soFar => some soFar
  | _ => none

/-- A message with one more frame, or with its first one. -/
def extend (f : WireFrame) : Draft → Draft
  | nothing => if f.header.opcode = .text then text f.payload else binary
  | text soFar => text (soFar ++ f.payload)
  | binary => binary

/-- What is unfinished after a frame. -/
def after (d : Draft) (f : WireFrame) : Draft :=
  if f.isControl then d else if f.header.isFinal then nothing else d.extend f

/-- The text that a frame completes. -/
def completed? (d : Draft) (f : WireFrame) : Option Bytes :=
  if f.isControl then none else if f.header.isFinal then (d.extend f).text?
  else none

end Draft

/-- The texts that are complete, in order. -/
def textsFrom : Draft → List WireFrame → List Bytes
  | _, [] => []
  | d, f :: fs =>
    if f.isWhole then (d.completed? f).toList ++ textsFrom (d.after f) fs
    else []

/-- The unfinished text inside which a stream ends with a close without its
body. -/
def cutTextFrom? : Draft → List WireFrame → Option Bytes
  | _, [] => none
  | d, f :: fs =>
    if f.isWhole then cutTextFrom? (d.after f) fs
    else if f.isBareClose then d.text? else none

/-- The payloads of the pings, as far as they are there. -/
def pingsOf (fs : List WireFrame) : List Bytes :=
  (fs.filter (·.isPing)).map (·.payload)

/-- The unfinished message of a reader. -/
def Phase.draft : Phase → Draft
  | .idle => .nothing
  | .text soFar _ => .text soFar
  | .binary => .binary

section Frames

variable {s rest : Bytes} {h : Header} {f : WireFrame} {d : Draft}

/-- A count of frames that the stream cannot reach does not matter. -/
theorem framesWithin_eq {m n : Nat} (hm : s.length ≤ m) (hn : s.length ≤ n) :
    framesWithin m s = framesWithin n s := by
  induction m generalizing n s with
  | zero =>
    obtain rfl := List.length_eq_zero_iff.mp (Nat.le_zero.mp hm)
    cases n <;> rfl
  | succ m ih =>
    cases n with
    | zero =>
      obtain rfl := List.length_eq_zero_iff.mp (Nat.le_zero.mp hn)
      rfl
    | succ n =>
      unfold framesWithin
      split
      · rfl
      · rename_i h rest hread
        have hshort := Header.rest_length hread
        have hdrop : (rest.drop h.length).length ≤ rest.length := by
          rw [List.length_drop]
          exact Nat.sub_le ..
        rw [ih (n := n) (by omega) (by omega)]

theorem frames_of_read (hread : Header.read s = .ok (h, rest)) :
    frames s = .ofRead h rest :: frames (rest.drop h.length) := by
  have hshort := Header.rest_length hread
  have hdrop : (rest.drop h.length).length ≤ rest.length := by
    rw [List.length_drop]
    exact Nat.sub_le ..
  obtain ⟨n, hn⟩ : ∃ n, s.length = n + 1 := ⟨s.length - 1, by omega⟩
  rw [frames, hn, framesWithin, hread]
  dsimp only
  rw [frames, framesWithin_eq (by omega) (Nat.le_refl _)]

theorem isWhole_iff : f.isWhole = true ↔ f.payload.length = f.header.length :=
  beq_iff_eq

@[simp] theorem payload_ofRead :
    (WireFrame.ofRead h rest).payload = unmask h.mask (rest.take h.length) :=
  rfl

@[simp] theorem header_ofRead : (WireFrame.ofRead h rest).header = h := rfl

theorem isWhole_ofRead :
    (WireFrame.ofRead h rest).isWhole = true ↔ h.length ≤ rest.length := by
  rw [isWhole_iff, payload_ofRead, header_ofRead, length_unmask,
    List.length_take]
  omega

/-- After a frame that is not whole the stream is at its end. -/
theorem drop_of_not_isWhole
    (hcut : ¬(WireFrame.ofRead h rest).isWhole = true) :
    rest.drop h.length = [] := by
  rw [isWhole_ofRead] at hcut
  exact List.drop_of_length_le (Nat.le_of_not_le hcut)

theorem isBareClose_ofRead_nil (hclose : h.opcode = .close) :
    (WireFrame.ofRead h []).isBareClose = true := by
  rw [WireFrame.isBareClose, header_ofRead, hclose, payload_ofRead,
    List.take_nil, unmask_nil]
  rfl

theorem after_of_isControl (hcontrol : f.isControl = true) : d.after f = d :=
  if_pos hcontrol

theorem completed?_of_isControl (hcontrol : f.isControl = true) :
    d.completed? f = none :=
  if_pos hcontrol

theorem after_of_data (hdata : f.isControl = false) :
    d.after f = if f.header.isFinal then .nothing else d.extend f := by
  rw [Draft.after, hdata, if_neg Bool.false_ne_true]

theorem completed?_of_data (hdata : f.isControl = false) :
    d.completed? f =
      if f.header.isFinal then (d.extend f).text? else none := by
  rw [Draft.completed?, hdata, if_neg Bool.false_ne_true]

theorem isPing_iff : f.isPing = true ↔ f.header.opcode = .ping := beq_iff_eq

theorem isPing_of_data (hdata : f.isControl = false) : ¬f.isPing = true := by
  rw [isPing_iff]
  intro hop
  rw [WireFrame.isControl, hop] at hdata
  cases hdata

theorem reply?_of_not_ping (hop : ¬f.isPing = true) : f.reply? = none :=
  if_neg fun h => hop h.1

theorem reply?_of_isWhole (hwhole : f.isWhole = true)
    (hping : f.isPing = true) : f.reply? = some (.pong f.payload) := by
  refine if_pos ⟨hping, fun hnil => ?_⟩
  rw [← isWhole_iff.mp hwhole, hnil]
  rfl

end Frames

/-- A text is checked as far as it has come, and is not yet too long. -/
def Phase.Checked (side : Side) : Phase → Prop
  | .text soFar state =>
    Utf8.State.run .start soFar = some state ∧ ∀ n, side.budget? = some n →
      soFar.length < n
  | _ => True

/-- What a frame does to a reader. -/
inductive Move (side : Side) (phase : Phase) (s : Bytes) : Step → Prop
  /-- At the end of the stream, at a broken rule and after a close nothing more
  is read. -/
  | stop {e : ReadError} {reply : Option Reply}
      (hreply : ∀ r ∈ reply, r.opcode = .close) :
      Move side phase s (.stop e reply)
  /-- A frame that completes no text. -/
  | more {h : Header} {rest : Bytes} {phase' : Phase}
      (hread : Header.read s = .ok (h, rest))
      (hdraft : phase'.draft = phase.draft.after (.ofRead h rest))
      (hopen : phase.draft.completed? (.ofRead h rest) = none)
      (hchecked : phase.Checked side → phase'.Checked side) :
      Move side phase s
          (.more phase' (WireFrame.ofRead h rest).reply? (rest.drop h.length))
  /-- The last frame of a text. -/
  | message {h : Header} {rest text : Bytes}
      (hread : Header.read s = .ok (h, rest))
      (hwhole : (WireFrame.ofRead h rest).isWhole = true)
      (hdata : (WireFrame.ofRead h rest).isControl = false)
      (hdraft : phase.draft.after (.ofRead h rest) = .nothing)
      (hdone : phase.draft.completed? (.ofRead h rest) = some text)
      (hvalid : phase.Checked side → Utf8.isValid text = true)
      (hroom : ∀ n, side.budget? = some n → text.length < n) :
      Move side phase s (.message text (rest.drop h.length))
  /-- A close without its body ends a text. -/
  | cut {h : Header} {soFar : Bytes} {state : Utf8.State}
      (hphase : phase = .text soFar state)
      (hread : Header.read s = .ok (h, [])) (hclose : h.opcode = .close)
      (hlength : h.length ≠ 0) : Move side phase s (.message soFar [])
  /-- A limit that wraps reads nothing of a text. -/
  | wrap {rest : Bytes} (hbudget : side.budget? = some 0) :
      Move side phase s (.message [] rest)

section Moves

variable {side : Side} {phase : Phase} {s rest soFar : Bytes} {h : Header}
  {state : Utf8.State}

/-- What is read of the bytes of a frame, after some bytes of the text. -/
def Side.part (side : Side) (soFar there : Bytes) : Bytes :=
  match side.budget?.map (· - soFar.length) with
  | some n => there.take n
  | none => there

theorem part_isPrefix (side : Side) (soFar there : Bytes) :
    side.part soFar there <+: there := by
  unfold Side.part
  split
  · exact List.take_prefix ..
  · exact List.prefix_rfl

/-- A part that does not fill the room leaves the text below the budget. -/
theorem length_append_part {there : Bytes} {n : Nat}
    (hbudget : side.budget? = some n)
    (hfull : side.budget?.map (· - soFar.length) ≠
      some (side.part soFar there).length) :
    (soFar ++ side.part soFar there).length < n := by
  simp only [Side.part, hbudget, Option.map_some, ne_eq, Option.some.injEq]
    at hfull ⊢
  rw [List.length_take] at hfull
  rw [List.length_append, List.length_take]
  omega

theorem textFrame_eq (side : Side) (soFar : Bytes) (state : Utf8.State)
    (h : Header) (rest : Bytes) :
    textFrame side soFar state h rest =
      let part := side.part soFar (WireFrame.ofRead h rest).payload
      match Utf8.State.run state part with
      | none => .stop .invalidText none
      | some reached =>
        if part.length = h.length ∧ h.isFinal ∧ reached ≠ .start then
          .stop .invalidText none
        else if side.budget?.map (· - soFar.length) = some part.length then
          .stop .tooBig none
        else if part.length ≠ h.length then .stop .unexpectedEnd none
        else if h.isFinal then .message (soFar ++ part) (rest.drop h.length)
        else .more (.text (soFar ++ part) reached) none (rest.drop h.length) :=
  rfl

/-- A part as long as the frame is all of its payload. -/
theorem part_of_length
    (hlength : (side.part soFar (WireFrame.ofRead h rest).payload).length =
      h.length) :
    side.part soFar (WireFrame.ofRead h rest).payload =
      (WireFrame.ofRead h rest).payload ∧
      (WireFrame.ofRead h rest).isWhole = true := by
  have hpart := part_isPrefix side soFar (WireFrame.ofRead h rest).payload
  have hthere : (WireFrame.ofRead h rest).payload.length ≤ h.length := by
    rw [payload_ofRead, length_unmask, List.length_take]
    exact Nat.min_le_left ..
  have heq : (WireFrame.ofRead h rest).payload.length = h.length :=
    Nat.le_antisymm hthere (hlength ▸ hpart.length_le)
  exact ⟨hpart.eq_of_length (hlength.trans heq.symm), isWhole_iff.mpr heq⟩

/-- A frame of a text ends the reading, or it is whole and there is room for
it. -/
theorem textFrame_cases (side : Side) (soFar : Bytes) (state : Utf8.State)
    (h : Header) (rest : Bytes) :
    (∃ e, textFrame side soFar state h rest = .stop e none) ∨
      ∃ reached, Utf8.State.run state (WireFrame.ofRead h rest).payload =
        some reached ∧
        (WireFrame.ofRead h rest).isWhole = true ∧
        (∀ n, side.budget? = some n →
            (soFar ++ (WireFrame.ofRead h rest).payload).length < n) ∧
        (h.isFinal = true → reached = .start) ∧
        textFrame side soFar state h rest =
          if h.isFinal then
            .message (soFar ++ (WireFrame.ofRead h rest).payload)
              (rest.drop h.length)
          else .more
              (.text (soFar ++ (WireFrame.ofRead h rest).payload) reached) none
            (rest.drop h.length) := by
  rw [textFrame_eq]
  dsimp only
  split
  · exact .inl ⟨_, rfl⟩
  · rename_i reached hrun
    split
    · exact .inl ⟨_, rfl⟩
    · rename_i hend
      split
      · exact .inl ⟨_, rfl⟩
      · rename_i hfull
        split
        · exact .inl ⟨_, rfl⟩
        · rename_i hlength
          have hlength := Decidable.not_not.mp hlength
          obtain ⟨hpart, hwhole⟩ := part_of_length hlength
          have hroom :=
            fun n hbudget => length_append_part (n := n) hbudget hfull
          rw [hpart] at hrun hroom
          refine .inr ⟨reached, hrun, hwhole, hroom,
            fun hfinal => ?_, by rw [hpart]⟩
          exact Decidable.not_not.mp fun hreached =>
            hend ⟨hlength, hfinal, hreached⟩

/-- A frame of a text, the first one or a later one. -/
theorem move_textFrame (hread : Header.read s = .ok (h, rest))
    (hdata : (WireFrame.ofRead h rest).isControl = false)
    (hdraft : phase.draft.extend (.ofRead h rest) =
      .text (soFar ++ (WireFrame.ofRead h rest).payload))
    (hstate : phase.Checked side → Utf8.State.run .start soFar = some state) :
    Move side phase s (textFrame side soFar state h rest) := by
  rcases textFrame_cases side soFar state h rest with
    ⟨e, hstop⟩ | ⟨reached, hrun, hwhole, hroom, hend, heq⟩
  · rw [hstop]
    exact .stop nofun
  · have hreached : phase.Checked side →
        Utf8.State.run .start (soFar ++ (WireFrame.ofRead h rest).payload) =
          some reached := by
      intro hchecked
      rw [Utf8.State.run_append, hstate hchecked]
      exact hrun
    rw [heq]
    cases hfinal : h.isFinal with
    | true =>
      refine .message hread hwhole hdata ?_ ?_ (fun hchecked => ?_) hroom
      · rw [after_of_data hdata, header_ofRead, hfinal, if_pos rfl]
      · rw [completed?_of_data hdata, header_ofRead, hfinal,
          if_pos rfl, hdraft]
        rfl
      · rw [Utf8.isValid_iff, hreached hchecked, hend hfinal]
    | false =>
      rw [if_neg Bool.false_ne_true,
        ← reply?_of_not_ping (isPing_of_data hdata)]
      refine .more hread ?_ ?_ fun hchecked => ⟨hreached hchecked, hroom⟩
      · rw [after_of_data hdata, header_ofRead, hfinal,
          if_neg Bool.false_ne_true, hdraft]
        rfl
      · rw [completed?_of_data hdata, header_ofRead, hfinal,
          if_neg Bool.false_ne_true]

theorem move_binaryFrame (hread : Header.read s = .ok (h, rest))
    (hdata : (WireFrame.ofRead h rest).isControl = false)
    (hdraft : phase.draft.extend (.ofRead h rest) = .binary) :
    Move side phase s (binaryFrame h rest) := by
  rw [binaryFrame, ← reply?_of_not_ping (isPing_of_data hdata)]
  refine .more hread ?_ ?_ fun _ => ?_
  · rw [after_of_data hdata, header_ofRead, hdraft]
    cases h.isFinal <;> rfl
  · rw [completed?_of_data hdata, header_ofRead, hdraft]
    cases h.isFinal <;> rfl
  · cases h.isFinal <;> trivial

/-- A ping or a pong, wherever it stands. -/
theorem move_notice (side : Side) (phase : Phase)
    (hread : Header.read s = .ok (h, rest))
    (hcontrol : (WireFrame.ofRead h rest).isControl = true) :
    Move side phase s
        (.more phase (WireFrame.ofRead h rest).reply? (rest.drop h.length)) :=
  .more hread (after_of_isControl hcontrol).symm
    (completed?_of_isControl hcontrol) id

theorem opcode_answerClose (body : Bytes) :
    (answerClose body).1.opcode = .close := by
  unfold answerClose
  split
  · rfl
  · dsimp only
    split <;> rfl

theorem move_answerClose (body : Bytes) :
    Move side phase s
        (.stop (answerClose body).2 (some (answerClose body).1)) := by
  refine .stop fun r hr => ?_
  cases hr
  exact opcode_answerClose body

theorem move_controlBetween (hread : Header.read s = .ok (h, rest))
    (hcontrol : (WireFrame.ofRead h rest).isControl = true) :
    Move side .idle s (controlBetween h rest) := by
  have hmore := move_notice side .idle hread hcontrol
  unfold controlBetween
  split
  · exact .stop nofun
  · rename_i hlength
    have hwhole : (WireFrame.ofRead h rest).isWhole = true :=
      isWhole_ofRead.mpr (Nat.not_lt.mp hlength)
    dsimp only
    split
    · rename_i hop
      rwa [reply?_of_isWhole hwhole (isPing_iff.mpr hop)] at hmore
    · exact move_answerClose _
    · rename_i hping _
      rwa [reply?_of_not_ping fun hop => hping (isPing_iff.mp hop)] at hmore

/-- Nothing follows a header of whose payload nothing is there. -/
theorem rest_of_payload_nil (hnil : unmask h.mask (rest.take h.length) = [])
    (hcut : (unmask h.mask (rest.take h.length)).length ≠ h.length) :
    h.length ≠ 0 ∧ rest = [] := by
  have hlength :
      (unmask h.mask (rest.take h.length)).length =
        (rest.take h.length).length :=
    length_unmask
  rw [hnil] at hcut hlength
  have hpos : h.length ≠ 0 := Ne.symm hcut
  rw [List.length_nil, List.length_take] at hlength
  exact ⟨hpos, List.length_eq_zero_iff.mp (by omega)⟩

theorem move_controlInside (hread : Header.read s = .ok (h, rest))
    (hcontrol : (WireFrame.ofRead h rest).isControl = true) :
    Move side phase s (controlInside phase h rest) := by
  have hmore := move_notice side phase hread hcontrol
  unfold controlInside
  dsimp only
  split
  · rename_i hop
    have hreply : (WireFrame.ofRead h rest).reply? =
        if h.length ≠ 0 ∧ unmask h.mask (rest.take h.length) = [] then none
        else some (.pong (unmask h.mask (rest.take h.length))) := by
      unfold WireFrame.reply?
      rw [isPing_iff.mpr hop, payload_ofRead, header_ofRead]
      grind
    rwa [hreply] at hmore
  · rename_i hop
    split
    · exact move_answerClose _
    · rename_i hcut
      split
      · exact .stop nofun
      · rename_i hnil
        obtain ⟨hlength, rfl⟩ :=
          rest_of_payload_nil (Decidable.not_not.mp hnil) hcut
        split
        · rw [List.drop_nil]
          exact .cut rfl hread hop hlength
        · exact .stop nofun
  · rename_i hping _
    rwa [reply?_of_not_ping fun hop => hping (isPing_iff.mp hop)] at hmore

theorem move_firstFrame (hread : Header.read s = .ok (h, rest))
    (hdata : (WireFrame.ofRead h rest).isControl = false) :
    Move side .idle s
      (if h.opcode = .text then firstTextFrame side h rest
        else binaryFrame h rest) := by
  split
  · rename_i hop
    unfold firstTextFrame
    split
    · rename_i hbudget
      exact .wrap hbudget
    · exact move_textFrame hread hdata (if_pos hop) fun _ => rfl
  · rename_i hop
    exact move_binaryFrame hread hdata (if_neg hop)

theorem move_onFrame (hread : Header.read s = .ok (h, rest)) :
    Move side phase s (phase.onFrame side h rest) := by
  cases phase with
  | idle =>
    dsimp only [Phase.onFrame]
    split
    · rename_i hcontrol
      exact move_controlBetween hread hcontrol
    · rename_i hdata
      split
      · exact .stop nofun
      · exact move_firstFrame hread (Bool.eq_false_of_not_eq_true hdata)
  | text soFar state =>
    dsimp only [Phase.onFrame]
    split
    · rename_i hcontrol
      exact move_controlInside hread hcontrol
    · rename_i hdata
      exact move_textFrame hread
        (Bool.eq_false_of_not_eq_true hdata) rfl And.left
  | binary =>
    dsimp only [Phase.onFrame]
    split
    · rename_i hcontrol
      exact move_controlInside hread hcontrol
    · rename_i hdata
      exact move_binaryFrame hread (Bool.eq_false_of_not_eq_true hdata) rfl

/-- All that a frame can do to a reader. -/
theorem move_step (side : Side) (phase : Phase) (s : Bytes) :
    Move side phase s (step side phase s) := by
  cases hread : Header.read s with
  | error e =>
    unfold step
    rw [hread]
    cases e <;> exact .stop nofun
  | ok found =>
    obtain ⟨h, rest⟩ := found
    cases hviolation : h.violation? side.role phase.isFragmented with
    | some e =>
      unfold step
      rw [hread]
      dsimp only
      rw [hviolation]
      exact .stop nofun
    | none =>
      rw [step_of_read hread hviolation]
      exact move_onFrame hread

theorem move_of_step {r : Step} (hstep : step side phase s = r) :
    Move side phase s r :=
  hstep ▸ move_step side phase s

end Moves

end Websocket
end TickRelay
