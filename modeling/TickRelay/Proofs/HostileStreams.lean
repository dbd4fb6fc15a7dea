import TickRelay.Proofs.FramingIndependence
import TickRelay.Proofs.StreamFrames

/-!
# Streams of any peer

**Input.** Any bytes, from a peer that need not keep a rule.

**Algorithm.** `Reads` follows a reader from frame to frame to the frame that
ends the reading. What one frame does is said by `move_step`; each result is
carried along such a run.

**Results.** `reads_any_stream`: the reading ends, no text is longer than the
limit, and what is written back is pongs and then at most a close. The texts
that are given are valid and are the texts of the stream, in order and without
a gap, but for one case: where the stream ends in a close without its body
inside a text, what there is of that text may come last. The pongs answer the
pings of the stream. This much is said for every limit but the largest 64-bit
number, and is false for that one.
-/

namespace TickRelay
namespace Websocket

/-- A reader goes from a phase to the end of a stream in some number of
frames. -/
inductive Reads (side : Side) : Phase → Bytes → Nat → Transcript → Prop
  | stop {phase : Phase} {s : Bytes} {e : ReadError} {reply : Option Reply}
      (hstep : step side phase s = .stop e reply) :
      Reads side phase s 1 ⟨[], e, reply.toList⟩
  | more {phase phase' : Phase} {s rest : Bytes} {reply : Option Reply}
      {n : Nat} {t : Transcript}
      (hstep : step side phase s = .more phase' reply rest)
      (hrest : Reads side phase' rest n t) :
      Reads side phase s (n + 1) (t.prepend [] reply.toList)
  | message {phase : Phase} {s text rest : Bytes} {n : Nat} {t : Transcript}
      (hstep : step side phase s = .message text rest)
      (hrest : Reads side .idle rest n t) :
      Reads side phase s (n + 1) (t.prepend [text] [])

/-- Pongs for the first ones of some pings, and after them at most a close. -/
def Answers (pings : List Bytes) (replies : List Reply) : Prop :=
  ∃ (pongs : List Bytes) (close : Option Reply),
    replies = pongs.map .pong ++ close.toList ∧ pongs <+: pings ∧
    ∀ r ∈ close, r.opcode = .close

/-- The first ones of the texts of some frames, all of them valid. After all of
the texts there may be one more, which a close without its body has cut off. -/
def Gives (d : Draft) (fs : List WireFrame) (payloads : List Bytes) : Prop :=
  ∃ (whole : List Bytes) (cut : Option Bytes),
    payloads = whole ++ cut.toList ∧ whole <+: textsFrom d fs ∧
      (∀ p ∈ whole, Utf8.isValid p = true) ∧
        ∀ p ∈ cut, whole = textsFrom d fs ∧ cutTextFrom? d fs = some p

section Replies

variable {pings : List Bytes} {replies : List Reply} {f : WireFrame}

theorem answers_nil (pings : List Bytes) : Answers pings [] :=
  ⟨[], none, rfl, List.nil_prefix, nofun⟩

theorem Answers.pong (h : Answers pings replies) (p : Bytes) :
    Answers (p :: pings) (.pong p :: replies) := by
  obtain ⟨pongs, close, rfl, hpongs, hclose⟩ := h
  exact ⟨p :: pongs, close, rfl, List.cons_prefix_cons.mpr ⟨rfl, hpongs⟩,
    hclose⟩

theorem pingsOf_cons (f : WireFrame) (fs : List WireFrame) :
    pingsOf (f :: fs) =
      if f.isPing then f.payload :: pingsOf fs else pingsOf fs := by
  unfold pingsOf
  rw [List.filter_cons]
  split <;> rfl

/-- A ping without a reply is the last frame, so no reply follows it. -/
theorem Answers.frame (h : Answers pings replies)
    (hlast : f.isWhole = true ∨ replies = []) :
    Answers (if f.isPing then f.payload :: pings else pings)
        (f.reply?.toList ++ replies) := by
  by_cases hping : f.isPing = true
  · rw [if_pos hping]
    cases hreply : f.reply? with
    | some r =>
      unfold WireFrame.reply? at hreply
      split at hreply
      · cases hreply
        exact h.pong f.payload
      · cases hreply
    | none =>
      rcases hlast with hwhole | rfl
      · rw [reply?_of_isWhole hwhole hping] at hreply
        cases hreply
      · exact answers_nil _
  · rw [if_neg hping, reply?_of_not_ping hping]
    exact h

end Replies

section Texts

variable {d : Draft} {fs : List WireFrame} {f : WireFrame}
  {payloads : List Bytes}

theorem gives_nil (d : Draft) (fs : List WireFrame) : Gives d fs [] :=
  ⟨[], none, rfl, List.nil_prefix, nofun, nofun⟩

theorem textsFrom_of_isWhole (hwhole : f.isWhole = true) :
    textsFrom d (f :: fs) =
      (d.completed? f).toList ++ textsFrom (d.after f) fs := if_pos hwhole

theorem cutTextFrom?_of_isWhole (hwhole : f.isWhole = true) :
    cutTextFrom? d (f :: fs) = cutTextFrom? (d.after f) fs := if_pos hwhole

theorem Gives.frame (h : Gives (d.after f) fs payloads)
    (hwhole : f.isWhole = true)
    (hvalid : ∀ p ∈ d.completed? f, Utf8.isValid p = true) :
    Gives d (f :: fs) ((d.completed? f).toList ++ payloads) := by
  obtain ⟨whole, cut, rfl, hwholes, hvalids, hcut⟩ := h
  refine ⟨(d.completed? f).toList ++ whole, cut, (List.append_assoc ..).symm,
    ?_, ?_, ?_⟩
  · rw [textsFrom_of_isWhole hwhole]
    exact (List.prefix_append_right_inj _).mpr hwholes
  · intro p hp
    rcases List.mem_append.mp hp with hdone | hlater
    · exact hvalid p (Option.mem_toList.mp hdone)
    · exact hvalids p hlater
  · intro p hp
    obtain ⟨hall, hp⟩ := hcut p hp
    rw [textsFrom_of_isWhole hwhole, cutTextFrom?_of_isWhole hwhole, hall]
    exact ⟨rfl, hp⟩

/-- A close without its body ends the last text. -/
theorem gives_cut {soFar : Bytes} (htext : d.text? = some soFar)
    (hcut : ¬f.isWhole = true) (hclose : f.isBareClose = true) :
    Gives d (f :: fs) [soFar] := by
  refine ⟨[], some soFar, rfl, List.nil_prefix, nofun, fun p hp => ?_⟩
  cases hp
  exact ⟨(if_neg hcut).symm, (if_neg hcut).trans ((if_pos hclose).trans htext)⟩

end Texts

namespace Reads

variable {side : Side} {phase : Phase} {s : Bytes} {n : Nat} {t : Transcript}

/-- Every frame but the one that ends the reading takes two bytes. -/
theorem frames_le (hreads : Reads side phase s n t) :
    2 * n ≤ s.length + 2 := by
  induction hreads with
  | stop => omega
  | more hstep _ ih =>
    have hshort := step_rest (by rw [hstep]; rfl)
    omega
  | message hstep _ ih =>
    have hshort := step_rest (by rw [hstep]; rfl)
    omega

/-- At the end of a stream nothing is read or written. -/
theorem of_nil (hreads : Reads side phase [] n t) :
    t.payloads = [] ∧ t.replies = [] := by
  obtain ⟨e, hstop⟩ : ∃ e, step side phase [] = .stop e none := ⟨_, rfl⟩
  cases hreads with
  | stop hstep =>
    cases hstop.symm.trans hstep
    exact ⟨rfl, rfl⟩
  | more hstep => cases hstop.symm.trans hstep
  | message hstep => cases hstop.symm.trans hstep

/-- Every stream is read to an end. -/
theorem readFrom_reads (side : Side) (phase : Phase) (s : Bytes) :
    ∃ n, Reads side phase s n (readFrom side phase s) := by
  induction hlength : s.length using Nat.strongRecOn generalizing phase s with
  | ind length ih =>
    cases hstep : step side phase s with
    | stop e reply =>
      have heq : readFrom side phase s = ⟨[], e, reply.toList⟩ := by
        unfold readFrom nextWithin
        rw [hstep]
      rw [heq]
      exact ⟨1, .stop hstep⟩
    | more phase' reply rest =>
      have hshort : rest.length + 2 ≤ s.length :=
        step_rest (by rw [hstep]; rfl)
      obtain ⟨n, hrest⟩ := ih rest.length (by omega) phase' rest rfl
      rw [readFrom_of_more hstep]
      exact ⟨n + 1, .more hstep hrest⟩
    | message text rest =>
      have hshort : rest.length + 2 ≤ s.length :=
        step_rest (by rw [hstep]; rfl)
      obtain ⟨n, hrest⟩ := ih rest.length (by omega) .idle rest rfl
      rw [readFrom_of_message hstep, readAll_eq_readFrom]
      exact ⟨n + 1, .message hstep hrest⟩

/-- A text is below the budget, or empty because the budget is nothing. -/
theorem below_budget (hreads : Reads side phase s n t)
    (hchecked : phase.Checked side) :
    ∀ p ∈ t.payloads, p = [] ∨ ∀ k, side.budget? = some k → p.length < k := by
  induction hreads with
  | stop => exact nofun
  | more hstep _ ih =>
    cases move_of_step hstep with
    | more _ _ _ hkeeps => exact ih (hkeeps hchecked)
  | message hstep _ ih =>
    refine List.forall_mem_cons.mpr ⟨?_, ih trivial⟩
    cases move_of_step hstep with
    | message _ _ _ _ _ _ hroom => exact .inr hroom
    | cut hphase =>
      rw [hphase] at hchecked
      exact .inr hchecked.2
    | wrap => exact .inl rfl

/-- What is written back; the pings are those of the stream unless the budget
is nothing. -/
theorem answers (hreads : Reads side phase s n t) :
    ∃ pings, Answers pings t.replies ∧
      (side.budget? ≠ some 0 → pings = pingsOf (frames s)) := by
  induction hreads with
  | stop hstep =>
    cases move_of_step hstep with
    | stop hreply =>
      exact ⟨_, ⟨[], _, rfl, List.nil_prefix, hreply⟩, fun _ => rfl⟩
  | more hstep hrest ih =>
    obtain ⟨pings, hanswers, hpings⟩ := ih
    cases move_of_step hstep with
    | @more h rest _ hread =>
      refine ⟨_, hanswers.frame (f := .ofRead h rest) ?_, fun hbudget => ?_⟩
      · by_cases hwhole : (WireFrame.ofRead h rest).isWhole = true
        · exact .inl hwhole
        · rw [drop_of_not_isWhole hwhole] at hrest
          exact .inr hrest.of_nil.2
      · rw [frames_of_read hread, pingsOf_cons, hpings hbudget]
  | message hstep _ ih =>
    obtain ⟨pings, hanswers, hpings⟩ := ih
    refine ⟨pings, hanswers, fun hbudget => ?_⟩
    cases move_of_step hstep with
    | message hread _ hdata =>
      rw [frames_of_read hread, pingsOf_cons, if_neg (isPing_of_data hdata),
        hpings hbudget]
    | @cut h _ _ _ hread hclose =>
      have hping : ¬(WireFrame.ofRead h []).isPing = true := by
        rw [isPing_iff, header_ofRead, hclose]
        exact nofun
      rw [frames_of_read hread, pingsOf_cons, if_neg hping,
        List.drop_nil, hpings hbudget]
    | wrap hzero => exact absurd hzero hbudget

/-- What is given of the texts of a stream, where the budget is not nothing. -/
theorem gives (hreads : Reads side phase s n t)
    (hbudget : side.budget? ≠ some 0) (hchecked : phase.Checked side) :
    Gives phase.draft (frames s) t.payloads := by
  induction hreads with
  | stop => exact gives_nil ..
  | @more phase phase' s rest reply n t hstep hrest ih =>
    cases move_of_step hstep with
    | @more h rest _ hread hdraft hopen hkeeps =>
      by_cases hwhole : (WireFrame.ofRead h rest).isWhole = true
      · have hlater := ih (hkeeps hchecked)
        rw [hdraft] at hlater
        have hgives := hlater.frame hwhole (by rw [hopen]; exact nofun)
        rw [hopen] at hgives
        rw [frames_of_read hread]
        exact hgives
      · rw [drop_of_not_isWhole hwhole] at hrest
        have hnil :
            (t.prepend [] (WireFrame.ofRead h rest).reply?.toList).payloads =
              [] :=
          hrest.of_nil.1
        rw [hnil]
        exact gives_nil ..
  | @message phase s text rest n t hstep hrest ih =>
    cases move_of_step hstep with
    | @message h rest _ hread hwhole _ hdraft hdone hvalid =>
      have hlater :
          Gives (phase.draft.after (.ofRead h rest))
            (frames (rest.drop h.length)) t.payloads := by
        rw [hdraft]
        exact ih trivial
      have hgives := hlater.frame hwhole (by
        rw [hdone]
        rintro p ⟨⟩
        exact hvalid hchecked)
      rw [hdone] at hgives
      rw [frames_of_read hread]
      exact hgives
    | @cut h _ _ hphase hread hclose hlength =>
      have hcut : ¬(WireFrame.ofRead h []).isWhole = true :=
        fun hwhole => hlength (Nat.le_zero.mp (isWhole_ofRead.mp hwhole))
      have hnil : (t.prepend [text] []).payloads = [text] :=
        congrArg (text :: ·) hrest.of_nil.1
      rw [hnil, frames_of_read hread]
      exact gives_cut (by rw [hphase]; rfl) hcut
        (isBareClose_ofRead_nil hclose)
    | wrap hzero => exact absurd hzero hbudget

end Reads

section Limits

variable {maxSize : Int64}

/-- What is below the budget is allowed, also where the budget wraps to
nothing. -/
theorem allows_of_lt_budget {side : Side} {length : Nat}
    (h : ∀ n, side.budget? = some n → length < n) : side.Allows length := by
  cases side with
  | client => trivial
  | server maxSize =>
    have hlt : length < (maxSize + 1).toInt.toNat := h _ rfl
    show (length : Int) ≤ maxSize.toInt
    by_cases hmax : maxSize = Int64.maxValue
    · rw [hmax] at hlt
      exact absurd hlt (Nat.not_lt_zero _)
    · rw [toInt_add_one hmax] at hlt
      omega

theorem toInt_pos (hmax : 1 ≤ maxSize) : 1 ≤ maxSize.toInt :=
  Int64.le_iff_toInt_le.mp hmax

theorem budget?_ne_zero (hpos : 1 ≤ maxSize)
    (hmax : maxSize ≠ Int64.maxValue) :
    (Side.server maxSize).budget? ≠ some 0 := by
  intro hzero
  have hside : Side.server maxSize ≠ .server Int64.maxValue :=
    fun heq => hmax (Side.server.inj heq)
  have hallowed : (Side.server maxSize).Allows 0 :=
    Int.le_trans Int.one_nonneg (toInt_pos hpos)
  exact Nat.lt_irrefl 0 (lt_budget hside hallowed hzero)

end Limits

/-- With the largest limit an empty text is given, which is none of the
stream. -/
theorem not_gives_greeting :
    ¬Gives .nothing (frames Item.greeting.bytes)
      (readAll (.server Int64.maxValue) Item.greeting.bytes).payloads := by
  have htexts :
      textsFrom .nothing (frames Item.greeting.bytes) = [utf8 "hi"] := by
    decide
  have hcut : cutTextFrom? .nothing (frames Item.greeting.bytes) = none := by
    decide
  rw [readAll_greeting]
  rintro ⟨whole, cut, heq, hwhole, -, hcuts⟩
  cases cut with
  | none =>
    rw [Option.toList_none, List.append_nil] at heq
    rw [htexts, ← heq] at hwhole
    revert hwhole
    decide
  | some p =>
    have hsome := (hcuts p rfl).2
    rw [hcut] at hsome
    cases hsome

/-- Whatever comes, the reading ends, texts are not too long, and pongs and at
most one close after them are written. Below the largest limit the texts are
those of the stream but for one that is cut off, and the pongs answer its
pings. -/
theorem reads_any_stream {maxSize : Int64} (hpos : 1 ≤ maxSize) :
    (∀ s : Bytes,
      (∃ n, Reads (.server maxSize) .idle s n (readAll (.server maxSize) s) ∧
        2 * n ≤ s.length + 2) ∧
      (∀ p ∈ (readAll (.server maxSize) s).payloads,
        (p.length : Int) ≤ maxSize.toInt) ∧
      ∃ pings, Answers pings (readAll (.server maxSize) s).replies) ∧
    ((∀ s : Bytes,
      Gives .nothing (frames s) (readAll (.server maxSize) s).payloads ∧
      Answers (pingsOf (frames s)) (readAll (.server maxSize) s).replies) ↔
        maxSize ≠ Int64.maxValue) := by
  have hreads : ∀ s, ∃ n,
      Reads (.server maxSize) .idle s n (readAll (.server maxSize) s) := by
    intro s
    rw [readAll_eq_readFrom]
    exact Reads.readFrom_reads ..
  refine ⟨fun s => ?_, ?_, fun hmax s => ?_⟩
  · obtain ⟨n, hreads⟩ := hreads s
    obtain ⟨pings, hanswers, -⟩ := hreads.answers
    refine ⟨⟨n, hreads, hreads.frames_le⟩, fun p hp => ?_, pings, hanswers⟩
    rcases hreads.below_budget trivial p hp with rfl | hroom
    · exact Int.le_trans Int.one_nonneg (toInt_pos hpos)
    · exact allows_of_lt_budget hroom
  · rintro hall rfl
    exact not_gives_greeting (hall _).1
  · obtain ⟨n, hreads⟩ := hreads s
    have hbudget := budget?_ne_zero hpos hmax
    obtain ⟨pings, hanswers, hpings⟩ := hreads.answers
    rw [hpings hbudget] at hanswers
    exact ⟨hreads.gives hbudget trivial, hanswers⟩

/-- A ping, a text, and a text in the middle of whose character a close without
its body comes. -/
def cutOff : Bytes :=
  [0x89, 0x81, 0, 0, 0, 0, 0x61, 0x81, 0x82, 1, 2, 3, 4, 0x69, 0x6B] ++
    [0x01, 0x81, 0, 0, 0, 0, 0xC3, 0x88, 0x82, 0, 0, 0, 0]

theorem reads_any_stream_of_cutOff :
    (1 : Int64) ≤ 2 ∧
    readAll (.server 2) cutOff =
      ⟨[utf8 "hi", [0xC3]], .endOfStream, [.pong [0x61]]⟩ ∧
    textsFrom .nothing (frames cutOff) = [utf8 "hi"] ∧
    pingsOf (frames cutOff) = [[0x61]] ∧
    (∀ p ∈ (readAll (.server 2) cutOff).payloads,
      (p.length : Int) ≤ (2 : Int64).toInt) ∧
    Gives .nothing (frames cutOff) (readAll (.server 2) cutOff).payloads ∧
    Answers (pingsOf (frames cutOff))
      (readAll (.server 2) cutOff).replies := by
  have hpos : (1 : Int64) ≤ 2 := by decide
  obtain ⟨hends, hgives⟩ := reads_any_stream hpos
  refine ⟨hpos, by decide, by decide, by decide, (hends cutOff).2.1, ?_⟩
  exact hgives.mpr (by decide) cutOff

/-- A close without its body makes a text of what is none: half a character, in
an unfinished message. -/
theorem cut_text_given :
    readAll (.server 4096)
        [0x01, 0x81, 0, 0, 0, 0, 0xC3, 0x88, 0x82, 0, 0, 0, 0] =
      ⟨[[0xC3]], .endOfStream, []⟩ ∧
    Utf8.isValid [0xC3] = false ∧
    textsFrom .nothing
        (frames [0x01, 0x81, 0, 0, 0, 0, 0xC3, 0x88, 0x82, 0, 0, 0, 0]) =
      [] := by
  decide

end Websocket
end TickRelay
