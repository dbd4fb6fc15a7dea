import TickRelay.Websocket.Reader

/-!
# Reading a stream frame by frame

**Algorithm.** The reader counts the frames it may still take, once for a
message and once for the stream, and no frame is shorter than two bytes, so
neither count is ever reached. `readFrom` reads from any phase without
counting, and goes on from one frame to the next as `step` says.

**Results.** `readAll_eq_readFrom`, and the equations of `readFrom` where a
frame is followed by more (`readFrom_of_more`) or completes a text
(`readFrom_of_message`).
-/

namespace TickRelay
namespace Websocket

namespace Transcript

/-- A transcript with texts and replies that came before. -/
def prepend (texts : List Bytes) (replies : List Reply) (t : Transcript) :
    Transcript :=
  ⟨texts ++ t.payloads, t.error, replies ++ t.replies⟩

@[simp] theorem prepend_nil (t : Transcript) : t.prepend [] [] = t := rfl

@[simp] theorem prepend_prepend (texts texts' : List Bytes)
    (replies replies' : List Reply) (t : Transcript) :
    (t.prepend texts' replies').prepend texts replies =
      t.prepend (texts ++ texts') (replies ++ replies') := by
  simp only [prepend, List.append_assoc]

end Transcript

/-- What is left of the stream after a frame, where reading goes on. -/
def Step.rest? : Step → Option Bytes
  | .more _ _ rest => some rest
  | .message _ rest => some rest
  | .stop _ _ => none

section Shortening

variable {side : Side} {phase : Phase} {s rest : Bytes} {h : Header}

theorem Header.rest_length (hread : Header.read s = .ok (h, rest)) :
    rest.length + 2 ≤ s.length := by
  match s with
  | [] => cases hread
  | [_] => cases hread
  | a :: b :: s =>
    dsimp only [Header.read] at hread
    generalize lengthBytes (b.toNat % 128) + (if 128 ≤ b.toNat then 4 else 0) =
      more at hread
    generalize (if lengthBytes (b.toNat % 128) = 0 then b.toNat % 128
      else bigEndian (s.take (lengthBytes (b.toNat % 128)))) = length at hread
    split at hread
    · cases hread
    · split at hread
      · cases hread
      · cases hread
        simp only [List.length_drop, List.length_cons]
        omega

theorem textFrame_rest {soFar : Bytes} {state : Utf8.State} {left : Bytes}
    (hrest : (textFrame side soFar state h rest).rest? = some left) :
    left.length ≤ rest.length := by
  unfold textFrame at hrest
  dsimp only at hrest
  split at hrest
  · cases hrest
  · (repeat' split at hrest) <;> cases hrest <;>
      simp only [List.length_drop, Nat.sub_le]

theorem controlInside_rest {left : Bytes}
    (hrest : (controlInside phase h rest).rest? = some left) :
    left.length ≤ rest.length := by
  unfold controlInside at hrest
  dsimp only at hrest
  (repeat' split at hrest) <;> cases hrest <;>
    simp only [List.length_drop, Nat.sub_le]

theorem controlBetween_rest {left : Bytes}
    (hrest : (controlBetween h rest).rest? = some left) :
    left.length ≤ rest.length := by
  unfold controlBetween at hrest
  dsimp only at hrest
  (repeat' split at hrest) <;> cases hrest <;>
    simp only [List.length_drop, Nat.sub_le]

theorem binaryFrame_rest {left : Bytes}
    (hrest : (binaryFrame h rest).rest? = some left) :
    left.length ≤ rest.length := by
  cases hrest
  simp only [List.length_drop, Nat.sub_le]

theorem firstTextFrame_rest {left : Bytes}
    (hrest : (firstTextFrame side h rest).rest? = some left) :
    left.length ≤ rest.length := by
  unfold firstTextFrame at hrest
  split at hrest
  · cases hrest
    exact Nat.le_refl _
  · exact textFrame_rest hrest

/-- Every frame takes at least two bytes off the stream. -/
theorem step_rest (hrest : (step side phase s).rest? = some rest) :
    rest.length + 2 ≤ s.length := by
  unfold step at hrest
  split at hrest
  · cases hrest
  · cases hrest
  · rename_i h left hread
    have hleft := Header.rest_length hread
    refine Nat.le_trans (Nat.add_le_add_right ?_ 2) hleft
    split at hrest
    · cases hrest
    · cases phase with
      | idle =>
        dsimp only at hrest
        (repeat' split at hrest)
        · exact controlBetween_rest hrest
        · cases hrest
        · exact firstTextFrame_rest hrest
        · exact binaryFrame_rest hrest
      | text soFar state =>
        dsimp only at hrest
        split at hrest
        · exact controlInside_rest hrest
        · exact textFrame_rest hrest
      | binary =>
        dsimp only at hrest
        split at hrest
        · exact controlInside_rest hrest
        · exact binaryFrame_rest hrest

end Shortening

section Counting

variable {side : Side} {phase : Phase} {s rest : Bytes}

/-- A count of frames that the stream cannot reach does not matter. -/
theorem nextWithin_eq {m n : Nat} (hm : s.length < m) (hn : s.length < n) :
    nextWithin side m phase s = nextWithin side n phase s := by
  induction m generalizing n phase s with
  | zero => exact absurd hm (Nat.not_lt_zero _)
  | succ m ih =>
    obtain ⟨n, rfl⟩ : ∃ k, n = k + 1 := ⟨n - 1, by omega⟩
    unfold nextWithin
    split
    · rfl
    · rfl
    · rename_i phase' reply rest hstep
      have hshort : rest.length + 2 ≤ s.length :=
        step_rest (by rw [hstep]; rfl)
      rw [ih (n := n) (by omega) (by omega)]

theorem nextWithin_rest {n : Nat} {text : Bytes}
    (hnext : (nextWithin side n phase s).result = .ok (text, rest)) :
    rest.length < s.length := by
  induction n generalizing phase s with
  | zero => cases hnext
  | succ n ih =>
    unfold nextWithin at hnext
    split at hnext
    · cases hnext
    · rename_i hstep
      cases hnext
      have hrest : (step side phase s).rest? = some rest := by rw [hstep]; rfl
      exact Nat.lt_of_succ_le (Nat.le_of_succ_le (step_rest hrest))
    · rename_i phase' reply left hstep
      have hshort : left.length + 2 ≤ s.length :=
        step_rest (by rw [hstep]; rfl)
      have hleft := ih hnext
      omega

/-- A count of messages that the stream cannot reach does not matter. -/
theorem readAllWithin_eq {m n : Nat} (hm : s.length < m) (hn : s.length < n) :
    readAllWithin side m s = readAllWithin side n s := by
  induction m generalizing n s with
  | zero => exact absurd hm (Nat.not_lt_zero _)
  | succ m ih =>
    obtain ⟨n, rfl⟩ : ∃ k, n = k + 1 := ⟨n - 1, by omega⟩
    unfold readAllWithin
    dsimp only
    split
    · rfl
    · rename_i text rest hnext
      have hshort := nextWithin_rest hnext
      rw [ih (n := n) (by omega) (by omega)]

/-- What is read from a stream on which a message may have begun. -/
def readFrom (side : Side) (phase : Phase) (s : Bytes) : Transcript :=
  let o := nextWithin side (s.length + 1) phase s
  match o.result with
  | .error e => ⟨[], e, o.replies⟩
  | .ok (text, rest) => (readAll side rest).prepend [text] o.replies

theorem readAll_eq_readFrom : readAll side s = readFrom side .idle s := by
  unfold readAll readFrom readAllWithin next
  dsimp only
  cases hnext : (nextWithin side (s.length + 1) .idle s).result with
  | error e => rfl
  | ok next =>
    obtain ⟨text, rest⟩ := next
    dsimp only
    rw [readAllWithin_eq (n := rest.length + 1) (nextWithin_rest hnext)
      (Nat.lt_succ_self _)]
    rfl

theorem readFrom_of_message {text : Bytes}
    (hstep : step side phase s = .message text rest) :
    readFrom side phase s = (readAll side rest).prepend [text] [] := by
  unfold readFrom nextWithin
  rw [hstep]

theorem readFrom_of_more {phase' : Phase} {reply : Option Reply}
    (hstep : step side phase s = .more phase' reply rest) :
    readFrom side phase s =
      (readFrom side phase' rest).prepend [] reply.toList := by
  have hshort : rest.length + 2 ≤ s.length := step_rest (by rw [hstep]; rfl)
  unfold readFrom
  rw [nextWithin, hstep]
  dsimp only
  rw [nextWithin_eq (n := rest.length + 1) (by omega) (Nat.lt_succ_self _)]
  cases (nextWithin side (rest.length + 1) phase' rest).result with
  | error e => rfl
  | ok next => simp only [Transcript.prepend_prepend, List.nil_append]

/-- A stream without a byte. -/
theorem readAll_nil : readAll side [] = ⟨[], .endOfStream, []⟩ := rfl

end Counting

end Websocket
end TickRelay
