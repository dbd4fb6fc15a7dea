import TickRelay.Proofs.BufferConservation

/-!
# The oldest ticks are dropped first

The queue is cut at its front, and it may be cut while a batch is in flight. If
the storage then refuses that batch, older ticks come back in front of a queue
that has lost some of its own, and the ticks between them are gone already.

**Algorithm.** `Recent` is the invariant. Either the batch in flight and the
queue still stand next to each other in the sequence of arrivals, or the queue
was cut since the batch was taken. A queue that was cut is as long as the cap
and stays so, since only a flush shortens it and no other one can start. So the
cap takes away all of a batch that comes back in front of it, and no gap is
left.

**Results.** `recent_of_run` is the invariant along every run,
`dropped_of_move` says what one event drops, and `oldest_dropped_first` what
both say about a buffer of checked settings.
-/

namespace TickRelay
namespace Ingest

namespace Buffer

variable {b : Buffer} {ts batch : List Tick}

/-- How many ticks may wait. -/
def cap (b : Buffer) : Nat := b.limits.maxBuffered.toInt.toNat

/-- The last ticks of a list, as many as may wait. -/
def newest (b : Buffer) (ts : List Tick) : List Tick :=
  ts.drop (ts.length - b.cap)

theorem newest_suffix (b : Buffer) (ts : List Tick) : b.newest ts <:+ ts :=
  List.drop_suffix _ _

theorem length_newest (b : Buffer) (ts : List Tick) :
    (b.newest ts).length = min ts.length b.cap := by
  rw [newest, List.length_drop]
  omega

theorem newest_of_room (h : ts.length ≤ b.cap) : b.newest ts = ts := by
  have hzero : ts.length - b.cap = 0 := by omega
  rw [newest, hzero, List.drop_zero]

/-- There is no room for anything in front of a full queue. -/
theorem newest_of_full (h : ts.length = b.cap) :
    b.newest (batch ++ ts) = ts := by
  have hbatch : (batch ++ ts).length - b.cap = batch.length := by
    rw [List.length_append]
    omega
  rw [newest, hbatch, List.drop_left]

/-- What is dropped stands in front of what is kept, and is dropped only for
want of room. -/
theorem newest_split (b : Buffer) (ts : List Tick) :
    ∃ gone, ts = gone ++ b.newest ts ∧ gone.length = ts.length - b.cap ∧
      (gone ≠ [] → (b.newest ts).length = b.cap) := by
  have hlength : (ts.take (ts.length - b.cap)).length = ts.length - b.cap := by
    rw [List.length_take]
    omega
  refine ⟨ts.take (ts.length - b.cap), (List.take_append_drop _ ts).symm,
    hlength, fun hgone => ?_⟩
  have hpos := List.length_pos_iff.mpr hgone
  rw [length_newest]
  omega

theorem limits_trim (b : Buffer) : b.trim.limits = b.limits := by
  unfold trim
  split
  · rfl
  · rfl

theorem append_eq (h : 0 ≤ b.limits.maxBuffered) (ts : List Tick) :
    b.append ts = { b with
      queue := b.newest (b.queue ++ ts)
      dropped := b.dropped + ((b.queue ++ ts).length - b.cap) } := by
  exact trim_eq (b := { b with queue := b.queue ++ ts }) h

theorem restore_eq (h : 0 ≤ b.limits.maxBuffered) (batch : List Tick) :
    b.restore batch = { b with
      queue := b.newest (batch ++ b.queue)
      dropped := b.dropped + ((batch ++ b.queue).length - b.cap)
      failing := true } := by
  rw [restore, trim_eq (b := { b with queue := batch ++ b.queue }) h]
  rfl

end Buffer

namespace Transit

variable {t u : Transit} {e : Event}

/-- The queue holds the newest ticks, and a batch in flight leaves no gap when
it comes back. -/
structure Recent (t : Transit) : Prop where
  nonneg : 0 ≤ t.buffer.limits.maxBuffered
  room : t.buffer.queue.length ≤ t.buffer.cap
  newest : t.buffer.queue <:+ t.arrived
  /-- Between the batch in flight and a queue with room nothing is missing. -/
  joined : t.inFlight ++ t.buffer.queue <:+ t.arrived ∨
    t.buffer.queue.length = t.buffer.cap

namespace Recent

theorem arrive (h : t.Recent) (ts : List Tick) (signals : Nat) :
    Recent { t with
      buffer := t.buffer.append ts, signals, arrived := t.arrived ++ ts } := by
  rw [Buffer.append_eq h.nonneg]
  have hlength := t.buffer.length_newest (t.buffer.queue ++ ts)
  have hnewest : t.buffer.queue ++ ts <:+ t.arrived ++ ts :=
    List.suffix_append_self_iff.mpr h.newest
  refine ⟨h.nonneg, ?_, (t.buffer.newest_suffix _).trans hnewest, ?_⟩
  · show (t.buffer.newest (t.buffer.queue ++ ts)).length ≤ t.buffer.cap
    omega
  · show t.inFlight ++ t.buffer.newest (t.buffer.queue ++ ts) <:+ t.arrived ++
      ts ∨ (t.buffer.newest (t.buffer.queue ++ ts)).length = t.buffer.cap
    by_cases hroom : (t.buffer.queue ++ ts).length ≤ t.buffer.cap
    · rw [Buffer.newest_of_room hroom]
      rcases h.joined with hnext | hfull
      · left
        rw [← List.append_assoc]
        exact List.suffix_append_self_iff.mpr hnext
      · right
        rw [List.length_append] at hroom ⊢
        omega
    · right
      omega

theorem take (h : t.Recent) :
    Recent { t with
      buffer := { t.buffer with queue := [] }
      flight := some (.committing t.buffer.queue) } := by
  refine ⟨h.nonneg, Nat.zero_le _, List.nil_suffix, Or.inl ?_⟩
  show t.buffer.queue ++ [] <:+ t.arrived
  rw [List.append_nil]
  exact h.newest

/-- Whatever a flush does without a move of ticks. -/
theorem of_same_ticks (h : t.Recent) (hqueue : u.buffer.queue = t.buffer.queue)
    (hlimits : u.buffer.limits = t.buffer.limits)
    (harrived : u.arrived = t.arrived)
    (hflight : u.inFlight = t.inFlight ∨ u.inFlight = []) : u.Recent := by
  have hcap : u.buffer.cap = t.buffer.cap := by
    rw [Buffer.cap, Buffer.cap, hlimits]
  refine ⟨hlimits ▸ h.nonneg, ?_, ?_, ?_⟩
  · rw [hqueue, hcap]
    exact h.room
  · rw [hqueue, harrived]
    exact h.newest
  · rw [hqueue, harrived, hcap]
    rcases hflight with hsame | hnone
    · rw [hsame]
      exact h.joined
    · rw [hnone]
      exact Or.inl h.newest

theorem putBack (h : t.Recent) {batch : List Tick}
    (hf : t.flight = some (.refused batch)) :
    Recent { t with buffer := t.buffer.restore batch, flight := none } := by
  have hbatch : t.inFlight = batch := by simp [inFlight, hf]
  have hlength := t.buffer.length_newest (batch ++ t.buffer.queue)
  have hnewest : t.buffer.newest (batch ++ t.buffer.queue) <:+ t.arrived := by
    rcases h.joined with hnext | hfull
    · rw [hbatch] at hnext
      exact (t.buffer.newest_suffix _).trans hnext
    · rw [Buffer.newest_of_full hfull]
      exact h.newest
  rw [Buffer.restore_eq h.nonneg]
  refine ⟨h.nonneg, ?_, hnewest, Or.inl hnewest⟩
  show (t.buffer.newest (batch ++ t.buffer.queue)).length ≤ t.buffer.cap
  omega

end Recent

/-- Every event leaves the newest ticks in the queue. -/
theorem recent_of_move (h : t.Recent) (hm : Move t e u) : u.Recent := by
  cases hm with
  | nothing => exact h
  | arrive hts => exact h.arrive _ _
  | signal hs => exact h.of_same_ticks rfl rfl rfl (Or.inl rfl)
  | takeNothing hf hq => exact h
  | take hf hq => exact h.take
  | accept hf =>
      exact h.of_same_ticks rfl rfl rfl (Or.inl (by simp [inFlight, hf]))
  | refuse hf =>
      exact h.of_same_ticks rfl rfl rfl (Or.inl (by simp [inFlight, hf]))
  | count hf => exact h.of_same_ticks rfl rfl rfl (Or.inr rfl)
  | putBack hf => exact h.putBack hf

/-- The queue holds the newest ticks after every run. -/
theorem recent_of_run {limits : Limits} (hcap : 0 ≤ limits.maxBuffered)
    {es : List Event} (h : run limits es = some t) : t.Recent := by
  have hstart : (start limits).Recent :=
    ⟨hcap, Nat.zero_le _, List.suffix_refl _, Or.inl (List.suffix_refl _)⟩
  exact Runs.run_invariant
    (fun _ _ _ hs hstep => recent_of_move hs (move_of_step hstep)) hstart h

/-- The ticks that would wait after an event if there were no cap. -/
def waiting (t : Transit) : Event → List Tick
  | .arrive ts => t.buffer.queue ++ ts
  | .signal | .answer _ => t.buffer.queue
  | .take => []
  | .finish =>
    match t.flight with
    | some (.refused batch) => batch ++ t.buffer.queue
    | _ => t.buffer.queue

/-- An event drops ticks only from the front of those that would wait, counts
them, and fills the queue up to the cap if it drops any. -/
theorem dropped_of_move (hcap : 0 ≤ t.buffer.limits.maxBuffered)
    (hm : Move t e u) :
    ∃ gone, t.waiting e = gone ++ u.buffer.queue ∧
      u.buffer.dropped = t.buffer.dropped + gone.length ∧
      (gone ≠ [] → u.buffer.queue.length = t.buffer.cap) := by
  have hnone : ∀ {ts : List Tick}, ts = u.buffer.queue →
      u.buffer.dropped = t.buffer.dropped →
      ∃ gone, ts = gone ++ u.buffer.queue ∧
        u.buffer.dropped = t.buffer.dropped + gone.length ∧
        (gone ≠ [] → u.buffer.queue.length = t.buffer.cap) :=
    fun hts hdropped => ⟨[], hts, hdropped, fun hgone => absurd rfl hgone⟩
  cases hm with
  | nothing => exact hnone (List.append_nil _) rfl
  | @arrive ts hts =>
      rw [Buffer.append_eq hcap]
      obtain ⟨gone, hsplit, hlength, hfull⟩ :=
        t.buffer.newest_split (t.buffer.queue ++ ts)
      exact ⟨gone, hsplit, by rw [hlength], hfull⟩
  | signal hs => exact hnone rfl rfl
  | takeNothing hf hq => exact hnone hq.symm rfl
  | take hf hq => exact hnone rfl rfl
  | accept hf => exact hnone rfl rfl
  | refuse hf => exact hnone rfl rfl
  | count hf => exact hnone (by simp [waiting, hf, Buffer.settle]) rfl
  | @putBack batch hf =>
      have hwaiting : t.waiting .finish = batch ++ t.buffer.queue := by
        simp [waiting, hf]
      rw [Buffer.restore_eq hcap, hwaiting]
      obtain ⟨gone, hsplit, hlength, hfull⟩ :=
        t.buffer.newest_split (batch ++ t.buffer.queue)
      exact ⟨gone, hsplit, by rw [hlength], hfull⟩

/-- No event changes the limits. -/
theorem limits_of_run {limits : Limits} {es : List Event}
    (h : run limits es = some t) : t.buffer.limits = limits := by
  refine Runs.run_invariant (P := fun s => s.buffer.limits = limits)
    (fun s e m hs hstep => ?_) rfl h
  rw [← hs]
  cases move_of_step hstep with
  | arrive hts => exact Buffer.limits_trim _
  | putBack hf => exact Buffer.limits_trim _
  | _ => rfl

/-- Everything that arrived is older than the queue or in it. What is older was
flushed, is in flight or was dropped. -/
theorem older_of_run {limits : Limits} (hcap : 0 ≤ limits.maxBuffered)
    {es : List Event} (h : run limits es = some t) :
    ∃ older, t.arrived = older ++ t.buffer.queue ∧
      (t.counted.flatten ++ t.inFlight).Sublist older ∧
      t.buffer.flushed + t.inFlight.length + t.buffer.dropped =
        older.length := by
  have hcon := conserved_of_run hcap h
  obtain ⟨older, holder⟩ := (recent_of_run hcap h).newest
  refine ⟨older, holder.symm, ?_, ?_⟩
  · have horder := hcon.order
    rw [← holder, kept] at horder
    exact (List.append_sublist_append_right _).mp horder
  · have hbalance := hcon.balance
    have hflushed := hcon.flushed
    rw [← holder] at hbalance
    simp only [kept, List.length_append] at hbalance
    omega

/-- **The oldest ticks are dropped first.** Whatever arrivals and flushes of a
buffer do, and whatever the storage answers, the queue is the end of the
sequence of arrivals and no longer than the cap. All that was dropped is older
than the queue. Each event drops from the front of what would wait, and only
what the cap has no room for. -/
theorem oldest_dropped_first {c valid : Config} (hc : c.validate = .ok valid)
    {es : List Event} (h : run (App.limits valid) es = some t) :
    t.buffer.queue <:+ arrivals es ∧
    (t.buffer.queue.length : Int) ≤ valid.ingestion.maxBuffered.toInt ∧
    (∃ older, arrivals es = older ++ t.buffer.queue ∧
      (t.counted.flatten ++ t.inFlight).Sublist older ∧
      t.buffer.flushed + t.inFlight.length + t.buffer.dropped = older.length) ∧
    ∀ e u, t.step e = some u → ∃ gone, t.waiting e = gone ++ u.buffer.queue ∧
      u.buffer.dropped = t.buffer.dropped + gone.length ∧
      (gone ≠ [] →
        (u.buffer.queue.length : Int) =
          valid.ingestion.maxBuffered.toInt) := by
  have hcap := cap_of_validate hc
  have hrecent := recent_of_run hcap h
  have harrived : t.arrived = arrivals es := arrived_of_run h
  have hlimit : (t.buffer.cap : Int) = valid.ingestion.maxBuffered.toInt := by
    have hnonneg : 0 ≤ (App.limits valid).maxBuffered.toInt :=
      Int64.le_iff_toInt_le.mp hcap
    rw [Buffer.cap, limits_of_run h]
    exact Int.toNat_of_nonneg hnonneg
  rw [← harrived]
  refine ⟨hrecent.newest, ?_, older_of_run hcap h, fun e u hstep => ?_⟩
  · have hroom := hrecent.room
    omega
  · obtain ⟨gone, hsplit, hdropped, hfull⟩ :=
      dropped_of_move hrecent.nonneg (move_of_step hstep)
    refine ⟨gone, hsplit, hdropped, fun hgone => ?_⟩
    have hlength := hfull hgone
    omega

/-- A batch of two is refused after three more ticks arrived, for the first of
which there was no room. -/
def cutMeanwhile : List Event :=
  [.arrive [{ symbol := [1] }, { symbol := [2] }], .take,
    .arrive [{ symbol := [3] }],
    .arrive [{ symbol := [4] }, { symbol := [5] }], .answer false]

/-- All of that batch is dropped when it comes back, and the two newest ticks
wait. -/
theorem oldest_dropped_first_of_cut_meanwhile :
    ∃ t u, roomForTwo.validate = .ok roomForTwo ∧
      run (App.limits roomForTwo) cutMeanwhile = some t ∧
      t.step .finish = some u ∧
      t.buffer.queue = [{ symbol := [4] }, { symbol := [5] }] ∧
      t.buffer.dropped = 1 ∧
      u.buffer.queue = t.buffer.queue ∧ u.buffer.dropped = 3 ∧
      t.buffer.queue <:+ arrivals cutMeanwhile ∧
      ∃ gone, t.waiting .finish = gone ++ u.buffer.queue ∧
        u.buffer.dropped = t.buffer.dropped + gone.length := by
  have hc : roomForTwo.validate = .ok roomForTwo := rfl
  have hseen :
      (run (App.limits roomForTwo) cutMeanwhile).bind
          (fun t => (t.step .finish).map fun u => (t.buffer.queue,
            t.buffer.dropped, u.buffer.queue, u.buffer.dropped)) =
        some ([{ symbol := [4] }, { symbol := [5] }], 1,
          [{ symbol := [4] }, { symbol := [5] }], 3) := rfl
  obtain ⟨t, ht, hnext⟩ := Option.bind_eq_some_iff.mp hseen
  obtain ⟨u, hu, hfields⟩ := Option.map_eq_some_iff.mp hnext
  simp only [Prod.mk.injEq] at hfields
  obtain ⟨hqueue, hdropped, hqueue', hdropped'⟩ := hfields
  obtain ⟨hsuffix, -, -, hstep⟩ := oldest_dropped_first hc ht
  obtain ⟨gone, hsplit, hgone, -⟩ := hstep .finish u hu
  exact ⟨t, u, hc, ht, hu, hqueue, hdropped, hqueue'.trans hqueue.symm,
    hdropped', hsuffix, gone, hsplit, hgone⟩

end Transit
end Ingest
end TickRelay
