import TickRelay.App
import TickRelay.Proofs.BufferTransit
import TickRelay.Proofs.ValidSettings

/-!
# No tick is lost, doubled or moved

A tick that arrived is in a counted batch, in the batch in flight, in the
queue, or was dropped because of the cap. The first three, one after the other,
are in the order of arrival.

**Algorithm.** `Conserved` is the invariant. The cap is the only thing that
takes ticks away, and `Conserved.trim` says that it may be applied at any time;
so an arrival and a batch that is put back are first followed without the cap,
where nothing is lost at all.

**Results.** `conserved_of_run` is the invariant along every run, and
`conservation` what it says about a buffer of checked settings.
-/

namespace TickRelay
namespace Ingest
namespace Transit

variable {t u : Transit} {e : Event}

/-- The ticks that are not dropped: counted batches, the batch in flight, the
queue. -/
def kept (t : Transit) : List Tick :=
  t.counted.flatten ++ t.inFlight ++ t.buffer.queue

/-- The books of a transit balance. -/
structure Conserved (t : Transit) : Prop where
  cap : 0 ≤ t.buffer.limits.maxBuffered
  order : t.kept.Sublist t.arrived
  balance : t.kept.length + t.buffer.dropped = t.arrived.length
  flushed : t.buffer.flushed = t.counted.flatten.length
  stored : t.stored = t.counted ++ t.takenInFlight

namespace Conserved

/-- A transit that keeps the same ticks, and dropped as many, balances if its
records do. -/
theorem of_kept_eq (h : t.Conserved) (hkept : u.kept = t.kept)
    (harrived : u.arrived = t.arrived)
    (hdropped : u.buffer.dropped = t.buffer.dropped)
    (hlimits : u.buffer.limits = t.buffer.limits)
    (hflushed : u.buffer.flushed = u.counted.flatten.length)
    (hstored : u.stored = u.counted ++ u.takenInFlight) : u.Conserved := by
  refine ⟨hlimits ▸ h.cap, ?_, ?_, hflushed, hstored⟩
  · rw [hkept, harrived]
    exact h.order
  · rw [hkept, harrived, hdropped]
    exact h.balance

/-- The cap moves ticks from the front of the queue to the count of dropped
ones. -/
theorem trim (h : t.Conserved) :
    Conserved { t with buffer := t.buffer.trim } := by
  rw [Buffer.trim_eq h.cap]
  have hle := t.buffer.beyondCap_le
  refine ⟨h.cap, ?_, ?_, h.flushed, h.stored⟩
  · have hdrop :
        (t.buffer.queue.drop t.buffer.beyondCap).Sublist t.buffer.queue :=
      List.drop_sublist _ _
    exact (hdrop.append_left (t.counted.flatten ++ t.inFlight)).trans h.order
  · have hb := h.balance
    simp only [kept, inFlight, List.length_append, List.length_drop] at hb ⊢
    omega

theorem arrive (h : t.Conserved) (ts : List Tick) (signals : Nat) :
    Conserved { t with
      buffer := t.buffer.append ts, signals, arrived := t.arrived ++ ts } := by
  -- Without the cap the arrivals stand at the end of both sequences.
  have hjoined : Conserved { t with
      buffer := { t.buffer with queue := t.buffer.queue ++ ts }
      signals
      arrived := t.arrived ++ ts } := by
    refine ⟨h.cap, ?_, ?_, h.flushed, h.stored⟩
    · have ho := h.order.append_right ts
      simpa only [kept, inFlight, List.append_assoc] using ho
    · have hb := h.balance
      simp only [kept, inFlight, List.length_append] at hb ⊢
      omega
  exact hjoined.trim

theorem take (h : t.Conserved) (hf : t.flight = none) :
    Conserved { t with
      buffer := { t.buffer with queue := [] }
      flight := some (.committing t.buffer.queue) } := by
  refine h.of_kept_eq ?_ rfl rfl rfl h.flushed ?_
  · simp [kept, inFlight, hf]
  · simp [h.stored, takenInFlight, hf]

theorem answer (h : t.Conserved) {f : Flight} {batch : List Tick}
    (hf : t.flight = some (.committing batch)) (hbatch : f.batch = batch) :
    Conserved { t with flight := some f, stored := t.stored ++ f.taken } := by
  refine h.of_kept_eq ?_ rfl rfl rfl h.flushed ?_
  · simp [kept, inFlight, hf, hbatch]
  · simp [h.stored, takenInFlight, hf]

theorem count (h : t.Conserved) {batch : List Tick}
    (hf : t.flight = some (.accepted batch)) :
    Conserved { t with
      buffer := t.buffer.settle batch
      flight := none
      counted := t.counted ++ [batch] } := by
  refine h.of_kept_eq ?_ rfl rfl rfl ?_ ?_
  · simp [kept, inFlight, hf, Buffer.settle]
  · simp [Buffer.settle, h.flushed]
  · simp [h.stored, takenInFlight, hf]

theorem putBack (h : t.Conserved) {batch : List Tick}
    (hf : t.flight = some (.refused batch)) :
    Conserved { t with buffer := t.buffer.restore batch, flight := none } := by
  -- Without the cap the batch only moves from the flight to the front of the
  -- queue.
  have hjoined : Conserved { t with
      buffer := { t.buffer with queue := batch ++ t.buffer.queue }
      flight := none } := by
    refine h.of_kept_eq ?_ rfl rfl rfl h.flushed ?_
    · simp [kept, inFlight, hf]
    · simp [h.stored, takenInFlight, hf]
  have htrim := hjoined.trim
  exact ⟨htrim.cap, htrim.order, htrim.balance, htrim.flushed, htrim.stored⟩

end Conserved

/-- Every event keeps the books balanced. -/
theorem conserved_of_move (h : t.Conserved) (hm : Move t e u) :
    u.Conserved := by
  cases hm with
  | nothing => exact h
  | arrive hts => exact h.arrive _ _
  | signal hs => exact ⟨h.cap, h.order, h.balance, h.flushed, h.stored⟩
  | takeNothing hf hq => exact h
  | take hf hq => exact h.take hf
  | @accept batch hf => exact h.answer (f := .accepted batch) hf rfl
  | @refuse batch hf =>
      have hr := h.answer (f := .refused batch) hf rfl
      simpa using hr
  | count hf => exact h.count hf
  | putBack hf => exact h.putBack hf

theorem conserved_start {limits : Limits} (h : 0 ≤ limits.maxBuffered) :
    (start limits).Conserved :=
  ⟨h, List.Sublist.refl _, rfl, rfl, rfl⟩

/-- The books balance after every run. -/
theorem conserved_of_run {limits : Limits} (hcap : 0 ≤ limits.maxBuffered)
    {es : List Event} (h : run limits es = some t) : t.Conserved :=
  Runs.run_invariant
    (fun _ _ _ hs hstep => conserved_of_move hs (move_of_step hstep))
    (conserved_start hcap) h

/-- As long as nothing is dropped, everything that arrived is kept in its
order. -/
theorem Conserved.kept_eq (h : t.Conserved) (hd : t.buffer.dropped = 0) :
    t.kept = t.arrived := by
  have hb := h.balance
  exact h.order.eq_of_length (by omega)

theorem cap_of_validate {c valid : Config} (h : c.validate = .ok valid) :
    0 ≤ (App.limits valid).maxBuffered := by
  have hs := Config.sound_of_validate h
  have h0 : (0 : Int64) ≤ 1 := by decide
  exact Int64.le_trans h0 (Int64.le_trans hs.commitBuffer hs.maxBuffered)

/-- **Conservation of ticks.** Whatever arrivals and flushes of a buffer do,
and whatever the storage answers, what is kept is in the order of arrival, and
what arrived is flushed, in flight, in the queue or dropped. The counted
batches are those that the storage took, but for one that is in flight. -/
theorem conservation {c valid : Config} (hc : c.validate = .ok valid)
    {es : List Event} (h : run (App.limits valid) es = some t) :
    (t.counted.flatten ++ t.inFlight ++ t.buffer.queue).Sublist (arrivals es) ∧
    t.buffer.flushed + t.inFlight.length + t.buffer.queue.length +
      t.buffer.dropped = (arrivals es).length ∧
    t.stored = t.counted ++ t.takenInFlight ∧
    (t.buffer.dropped = 0 →
      t.counted.flatten ++ t.inFlight ++ t.buffer.queue = arrivals es) := by
  have hcon := conserved_of_run (cap_of_validate hc) h
  have harr : t.arrived = arrivals es := arrived_of_run h
  rw [← harr]
  refine ⟨hcon.order, ?_, hcon.stored, hcon.kept_eq⟩
  have hb := hcon.balance
  have hf := hcon.flushed
  simp only [kept, List.length_append] at hb
  omega

/-- Settings with room for two ticks. -/
def roomForTwo : Config :=
  { ingestion := { commitBuffer := 1, maxBuffered := 2 } }

/-- A batch of two is refused after a third tick arrived, and the retry
succeeds while a fourth one waits. -/
def cutRetry : List Event :=
  [.arrive [{ symbol := [1] }, { symbol := [2] }], .take,
    .arrive [{ symbol := [3] }], .answer false,
    .finish, .take, .arrive [{ symbol := [4] }], .answer true, .finish]

/-- The first tick is dropped when its batch comes back, and the other three
are kept. -/
theorem conservation_of_cut_retry :
    ∃ t, roomForTwo.validate = .ok roomForTwo ∧
      run (App.limits roomForTwo) cutRetry = some t ∧
      t.counted = [[{ symbol := [2] }, { symbol := [3] }]] ∧
      t.buffer.dropped = 1 ∧
      (t.counted.flatten ++ t.inFlight ++ t.buffer.queue).Sublist
          (arrivals cutRetry) ∧
      t.buffer.flushed + t.inFlight.length + t.buffer.queue.length +
        t.buffer.dropped = 4 := by
  have hc : roomForTwo.validate = .ok roomForTwo := rfl
  have hseen :
      (run (App.limits roomForTwo) cutRetry).map
          (fun t => (t.counted, t.buffer.dropped)) =
        some ([[{ symbol := [2] }, { symbol := [3] }]], 1) := rfl
  obtain ⟨t, ht, hfields⟩ := Option.map_eq_some_iff.mp hseen
  obtain ⟨hcounted, hdropped⟩ := Prod.mk.inj hfields
  obtain ⟨horder, hbalance, _⟩ := conservation hc ht
  exact ⟨t, hc, ht, hcounted, hdropped, horder, hbalance⟩

end Transit
end Ingest
end TickRelay
