import TickRelay.Proofs.BufferConservation
import TickRelay.Proofs.BulkWriting
import Mathlib.Data.List.Basic

/-!
# What the server reports and what is counted

A buffer commits its batches to Elasticsearch. The server answers every bulk
request with a status and, if the status is 200, with one result for each
document: it was created, or it was rejected.

**Algorithm.** `Shipment.step` is one event of a buffer as in `Transit`, where
a commit is a bulk request with whatever the server answers to it and to its
repetitions. Every answer is kept beside its batch, as a `Receipt`.

**Results.** `booked_of_run`: a batch is taken as stored for exactly one
answer, and that is one of status 200, whatever its results are.
`flushed_iff_reported`: what is flushed is what was created and what was
rejected, and all of it was created exactly if no answer had errors.
`not_always_reported` is a run that counts a rejected tick.
-/

namespace TickRelay

namespace Storage
namespace Elastic

/-- The answers to a request that is sent some number of times. -/
def heard (fallback : Answer) : Nat → List Answer → List Answer
  | 0, _ => []
  | n + 1, answers =>
      answers.head?.getD fallback :: heard fallback n answers.tail

/-- A request is sent again only after an answer that says so, and the last
answer decides. -/
theorem heard_send (r : Request) (fallback : Answer) (n : Nat)
    (answers : List Answer) :
    ∃ earlier,
      heard fallback (send r fallback (n + 1) answers).1.length answers =
        earlier ++ [(send r fallback (n + 1) answers).2] ∧
      ∀ a ∈ earlier, isTransient a.status = true := by
  induction n generalizing answers with
  | zero =>
      exact ⟨[], by simp [send, heard], fun a ha => absurd ha List.not_mem_nil⟩
  | succ n ih =>
      by_cases hagain : isTransient (answers.head?.getD fallback).status = true
      · obtain ⟨earlier, hheard, hearlier⟩ := ih answers.tail
        refine ⟨answers.head?.getD fallback :: earlier, ?_, ?_⟩
        · rw [send]
          simp only [hagain, ne_eq, Nat.add_eq_zero_iff, one_ne_zero,
            and_false, not_false_eq_true, and_self, if_true, List.length_cons,
            heard, hheard, List.cons_append]
        · exact List.forall_mem_cons.mpr ⟨hagain, hearlier⟩
      · refine ⟨[], ?_, fun a ha => absurd ha List.not_mem_nil⟩
        rw [send]
        simp [hagain, heard]

/-- A commit succeeds for exactly one answer, the last one, and that has status
200. -/
theorem length_accepted_commit {ticks : List Tick} (hticks : ticks ≠ [])
    (account : Account) (clock : Instant) (createdAt : ZonedTime)
    (fallback : Answer) (answers : List Answer) :
    ((heard fallback
        (commit account clock createdAt ticks fallback answers).1.length
        answers).filter (·.status == 200)).length =
      if (commit account clock createdAt ticks fallback answers).2.isOk then 1
      else 0 := by
  unfold commit
  rw [if_neg (by simpa using hticks)]
  cases hbody : bulkBody? clock createdAt ticks with
  | none => rfl
  | some body =>
      obtain ⟨earlier, hheard, hearlier⟩ :=
        heard_send (bulk account body) fallback 2 answers
      have hnone : earlier.filter (·.status == 200) = [] := by
        refine List.filter_eq_nil_iff.mpr fun a ha hstatus => ?_
        have htransient := hearlier a ha
        rw [beq_iff_eq] at hstatus
        rw [hstatus] at htransient
        cases htransient
      simp only [hheard, List.filter_append, hnone,
        List.nil_append, statusFault?]
      by_cases hstatus :
        (send (bulk account body) fallback 3 answers).2.status = 200
      · simp [hstatus, Except.isOk, Except.toBool]
      · simp [hstatus, Except.isOk, Except.toBool]

end Elastic
end Storage

namespace Ingest

/-- The answer of the storage keeps the batch in flight, and counts it as
stored once or not at all. -/
theorem Transit.stored_of_answer {t u : Transit} {batch : List Tick}
    {ok : Bool} (hflight : t.flight = some (.committing batch))
    (hmove : Move t (.answer ok) u) :
    u.stored = t.stored ++ List.replicate (if ok then 1 else 0) batch ∧
      u.flight.map Flight.batch = some batch := by
  cases hmove with
  | accept hf =>
      rw [hflight] at hf
      cases hf
      exact ⟨rfl, rfl⟩
  | refuse hf =>
      rw [hflight] at hf
      cases hf
      exact ⟨(List.append_nil _).symm, rfl⟩

/-- An answer of the server, and the batch that it is about. -/
structure Receipt where
  batch : List Tick
  answer : Storage.Elastic.Answer
  deriving DecidableEq

namespace Receipt

/-- The ticks of the batch with their results. -/
def results (r : Receipt) : List (Tick × Bool) := r.batch.zip r.answer.created

/-- The ticks that the answer reports as created. -/
def created (r : Receipt) : List Tick := (r.results.filter (·.2)).map (·.1)

/-- The ticks that the answer reports as rejected. -/
def rejected (r : Receipt) : List Tick := (r.results.filter (!·.2)).map (·.1)

/-- Whether some documents were rejected. -/
def hasErrors (r : Receipt) : Bool := r.answer.created.contains false

/-- Whether the answer says that the request was carried out. -/
def isAccepted (r : Receipt) : Bool := r.answer.status == 200

/-- There is one result for each document. -/
def ListsAll (r : Receipt) : Prop := r.answer.created.length = r.batch.length

variable {r : Receipt}

theorem created_sublist (r : Receipt) (h : r.ListsAll) :
    r.created.Sublist r.batch := by
  have hsub :=
    (List.filter_sublist (p := fun x : Tick × Bool => x.2)
      (l := r.results)).map Prod.fst
  rwa [results, List.map_fst_zip (Nat.le_of_eq h.symm)] at hsub

theorem length_created_add_rejected (h : r.ListsAll) :
    r.created.length + r.rejected.length = r.batch.length := by
  have hsplit := List.length_eq_length_filter_add (l := r.results) (·.2)
  rw [created, rejected, List.length_map, List.length_map, ← hsplit,
    results, List.length_zip]
  have hlength : r.answer.created.length = r.batch.length := h
  omega

theorem rejected_eq_nil_iff (h : r.ListsAll) :
    r.rejected = [] ↔ r.hasErrors = false := by
  have hresults : r.results.map Prod.snd = r.answer.created :=
    List.map_snd_zip (Nat.le_of_eq h)
  rw [rejected, List.map_eq_nil_iff, List.filter_eq_nil_iff, hasErrors,
    ← hresults, List.contains_eq_mem, decide_eq_false_iff_not, List.mem_map]
  constructor
  · rintro hnone ⟨x, hx, hfalse⟩
    exact hnone x hx (by rw [hfalse]; rfl)
  · intro hnone x hx hrejected
    exact hnone ⟨x, hx, by simpa using hrejected⟩

/-- All of a batch was created exactly if the answer has no errors. -/
theorem created_eq_batch_iff (h : r.ListsAll) :
    r.created = r.batch ↔ r.hasErrors = false := by
  have hlength := length_created_add_rejected h
  rw [← rejected_eq_nil_iff h, ← List.length_eq_zero_iff]
  constructor
  · intro heq
    rw [heq] at hlength
    omega
  · intro hnone
    exact (r.created_sublist h).eq_of_length (by omega)

end Receipt

section Collected

variable {rs : List Receipt}

theorem length_flatMap_created (h : ∀ r ∈ rs, r.ListsAll) :
    (rs.flatMap Receipt.created).length +
        (rs.flatMap Receipt.rejected).length =
      (rs.map Receipt.batch).flatten.length := by
  induction rs with
  | nil => rfl
  | cons r rs ih =>
      obtain ⟨hr, hrs⟩ := List.forall_mem_cons.mp h
      have hone := Receipt.length_created_add_rejected hr
      have hrest := ih hrs
      simp only [List.flatMap_cons, List.map_cons, List.flatten_cons,
        List.length_append]
      omega

/-- What was created out of several batches is all of them exactly if no answer
has errors. -/
theorem flatMap_created_eq_iff (h : ∀ r ∈ rs, r.ListsAll) :
    rs.flatMap Receipt.created = (rs.map Receipt.batch).flatten ↔
      ∀ r ∈ rs, r.hasErrors = false := by
  induction rs with
  | nil => simp
  | cons r rs ih =>
      obtain ⟨hr, hrs⟩ := List.forall_mem_cons.mp h
      have hone := Receipt.length_created_add_rejected hr
      have hrest := length_flatMap_created hrs
      rw [List.forall_mem_cons, ← Receipt.created_eq_batch_iff hr, ← ih hrs]
      simp only [List.flatMap_cons, List.map_cons, List.flatten_cons]
      constructor
      · intro heq
        have hlength := congrArg List.length heq
        simp only [List.length_append] at hlength
        exact List.append_inj heq (by omega)
      · rintro ⟨hbatch, hbatches⟩
        rw [hbatch, hbatches]

end Collected

/-- A buffer that commits to Elasticsearch, and the answers so far. -/
structure Shipment where
  transit : Transit
  receipts : List Receipt := []
  deriving DecidableEq

namespace Shipment

open Storage

/-- What can happen. -/
inductive Event where
  /-- An arrival, its trigger, or a step of a flush apart from the commit
  itself. -/
  | traffic (e : Transit.Event)
  /-- The batch in flight is committed at some time, with what the server
  answers. -/
  | commit (clock : Instant) (createdAt : ZonedTime)
      (fallback : Elastic.Answer)
      (answers : List Elastic.Answer)

/-- The ticks that an event brings. -/
def Event.ticks : Event → List Tick
  | traffic e => e.ticks
  | commit _ _ _ _ => []

/-- The ticks that arrive in the course of some events. -/
def arrivals (es : List Event) : List Tick := es.flatMap Event.ticks

/-- An empty buffer with the given limits. -/
def start (limits : Limits) : Shipment := { transit := .start limits }

/-- One event. The storage answers by the outcome of the bulk request alone. -/
def step (account : Elastic.Account) (s : Shipment) : Event → Option Shipment
  | .traffic (.answer _) => none
  | .traffic e => (s.transit.step e).map fun transit => { s with transit }
  | .commit clock createdAt fallback answers =>
    match s.transit.flight with
    | some (.committing batch) =>
      let (requests, outcome) :=
        Elastic.commit account clock createdAt batch fallback answers
      (s.transit.step (.answer outcome.isOk)).map fun transit =>
        { transit
          receipts := s.receipts ++
            (Elastic.heard fallback requests.length answers).map fun answer =>
            ⟨batch, answer⟩ }
    | _ => none

/-- The shipment after some events from an empty buffer. -/
def run (account : Elastic.Account) (limits : Limits) (es : List Event) :
    Option Shipment :=
  Runs.run (step account) (start limits) es

/-- The answers that say that a request was carried out. -/
def accepted (s : Shipment) : List Receipt :=
  s.receipts.filter Receipt.isAccepted

/-- Those of them whose batch is counted. -/
def counted (s : Shipment) : List Receipt :=
  s.accepted.take s.transit.counted.length

variable {account : Elastic.Account} {limits : Limits} {s u : Shipment}
  {e : Event} {es : List Event}

/-- The ways in which a shipment can go on. -/
inductive Move (account : Elastic.Account) (s : Shipment) :
    Event → Shipment → Prop
  | traffic {e : Transit.Event} {t : Transit}
      (hanswer : ∀ accepted, e ≠ .answer accepted)
      (hmove : Transit.Move s.transit e t) :
      Move account s (.traffic e) { s with transit := t }
  | commit {clock : Instant} {createdAt : ZonedTime}
      {fallback : Elastic.Answer} {answers : List Elastic.Answer}
      {batch : List Tick} {t : Transit}
      (hflight : s.transit.flight = some (.committing batch))
      (hmove : Transit.Move s.transit (.answer (Elastic.commit account clock
        createdAt batch fallback answers).2.isOk) t) :
      Move account s (.commit clock createdAt fallback answers) {
        transit := t
        receipts := s.receipts ++ (Elastic.heard fallback
          (Elastic.commit account clock createdAt batch fallback
              answers).1.length answers).map
            fun answer => ⟨batch, answer⟩ }

/-- Every event is one of the moves. -/
theorem move_of_step (h : s.step account e = some u) : Move account s e u := by
  cases e with
  | traffic e =>
      have hmove : ∀ {t : Transit}, s.transit.step e = some t →
          (∀ accepted, e ≠ .answer accepted) →
          Move account s (.traffic e) { s with transit := t } :=
        fun ht hanswer => .traffic hanswer (Transit.move_of_step ht)
      cases e with
      | answer accepted => cases h
      | arrive | signal | take | finish =>
          obtain ⟨t, ht, rfl⟩ := Option.map_eq_some_iff.mp h
          exact hmove ht (fun _ => Transit.Event.noConfusion)
  | commit clock createdAt fallback answers =>
      simp only [step] at h
      split at h
      case h_1 batch hflight =>
        obtain ⟨t, ht, rfl⟩ := Option.map_eq_some_iff.mp h
        exact .commit hflight (Transit.move_of_step ht)
      case h_2 => cases h

/-- To its buffer every event is one of a transit. -/
theorem Move.transit (h : Move account s e u) :
    ∃ f, Transit.Move s.transit f u.transit ∧ f.ticks = e.ticks := by
  cases h with
  | traffic hanswer hmove => exact ⟨_, hmove, rfl⟩
  | commit hflight hmove => exact ⟨_, hmove, rfl⟩

theorem transit_of_run (h : run account limits es = some s) :
    ∃ fs, Transit.run limits fs = some s.transit ∧
      Transit.arrivals fs = arrivals es := by
  refine Runs.run_history
    (P := fun es s => ∃ fs, Transit.run limits fs = some s.transit ∧
      Transit.arrivals fs = arrivals es)
    ⟨[], rfl, rfl⟩ (fun es s e u _ hs hstep => ?_) h
  obtain ⟨fs, hfs, harrivals⟩ := hs
  obtain ⟨f, hmove, hticks⟩ := (move_of_step hstep).transit
  have hnext := Transit.step_of_move hmove
  refine ⟨fs ++ [f],
    Runs.run_append.mpr ⟨s.transit, hfs, Runs.run_cons.mpr ⟨_, hnext, rfl⟩⟩,
    ?_⟩
  unfold arrivals Transit.arrivals at harrivals ⊢
  rw [List.flatMap_append, List.flatMap_append, harrivals,
    List.flatMap_singleton, List.flatMap_singleton, hticks]

/-- The batches with an answer of status 200 are those that count as stored,
and there is something in every batch. -/
structure Booked (s : Shipment) : Prop where
  stored : s.accepted.map Receipt.batch = s.transit.stored
  batch : ∀ f, s.transit.flight = some f → f.batch ≠ []

/-- The batches of the answers to one commit that have status 200. -/
theorem batches_of_answers (batch : List Tick)
    (answers : List Elastic.Answer) :
    ((answers.map (Receipt.mk batch)).filter Receipt.isAccepted).map
        Receipt.batch =
      List.replicate (answers.filter (·.status == 200)).length batch := by
  have hfilter : (answers.map (Receipt.mk batch)).filter Receipt.isAccepted =
      (answers.filter (·.status == 200)).map (Receipt.mk batch) :=
    List.filter_map
  rw [hfilter, List.map_map]
  exact List.map_const' ..

theorem Booked.move (h : s.Booked) (hmove : Move account s e u) :
    u.Booked := by
  cases hmove with
  | @traffic e t hanswer hmove =>
      cases hmove with
      | accept hf => exact absurd rfl (hanswer true)
      | refuse hf => exact absurd rfl (hanswer false)
      | nothing | arrive | signal | takeNothing => exact ⟨h.stored, h.batch⟩
      | take hf hq =>
          refine ⟨h.stored, fun f hflight => ?_⟩
          cases hflight
          exact hq
      | count hf | putBack hf =>
          exact ⟨h.stored,
            fun f hflight => absurd hflight (Option.some_ne_none f).symm⟩
  | @commit clock createdAt fallback answers batch t hflight hmove =>
      have hbatch : batch ≠ [] := h.batch _ hflight
      have hlength :=
        Elastic.length_accepted_commit hbatch account clock
          createdAt fallback answers
      obtain ⟨hstored, hsame⟩ := Transit.stored_of_answer hflight hmove
      refine ⟨?_, fun f hf => ?_⟩
      · rw [accepted, List.filter_append, List.map_append, batches_of_answers,
          hlength, hstored]
        exact congrArg (· ++ _) h.stored
      · rw [hf] at hsame
        rwa [Option.some_inj.mp hsame]

/-- A batch counts as stored for exactly one answer, one of status 200,
whatever its results are. -/
theorem booked_of_run (h : run account limits es = some s) : s.Booked := by
  refine Runs.run_invariant
    (fun _ _ _ hs hstep => hs.move (move_of_step hstep)) ⟨rfl, ?_⟩ h
  exact fun f hflight => absurd hflight (Option.some_ne_none f).symm

theorem counted_of_run (hcap : 0 ≤ limits.maxBuffered)
    (h : run account limits es = some s) :
    s.counted.map Receipt.batch = s.transit.counted := by
  obtain ⟨fs, hfs, -⟩ := transit_of_run h
  have hstored := (Transit.conserved_of_run hcap hfs).stored
  rw [counted, List.map_take, (booked_of_run h).stored,
    hstored, List.take_left]

/-- **Ticks are flushed by the status alone.** A buffer commits to a server
that answers each bulk request with any status and, if it is 200, with one
result for each document. Then a batch is counted for exactly one answer of
status 200. The flushed ticks are those that were reported as created and those
that were reported as rejected; what else arrived is in flight, waits, or was
dropped. All of the flushed ticks were reported as created exactly if no answer
for which they were counted had errors. -/
theorem flushed_iff_reported (hcap : 0 ≤ limits.maxBuffered)
    (h : run account limits es = some s)
    (hlists : ∀ r ∈ s.accepted, r.ListsAll) :
    s.counted.map Receipt.batch = s.transit.counted ∧
    s.transit.buffer.flushed =
      (s.counted.flatMap Receipt.created).length +
        (s.counted.flatMap Receipt.rejected).length ∧
    s.transit.buffer.flushed + s.transit.inFlight.length +
        s.transit.buffer.queue.length + s.transit.buffer.dropped =
      (arrivals es).length ∧
    (s.counted.flatMap Receipt.created = s.transit.counted.flatten ↔
      ∀ r ∈ s.counted, r.hasErrors = false) := by
  have hbatches := counted_of_run hcap h
  have hcounted : ∀ r ∈ s.counted, r.ListsAll :=
    fun r hr => hlists r (List.mem_of_mem_take hr)
  obtain ⟨fs, hfs, harrivals⟩ := transit_of_run h
  have hconserved := Transit.conserved_of_run hcap hfs
  have harrived : s.transit.arrived = Transit.arrivals fs :=
    Transit.arrived_of_run hfs
  refine ⟨hbatches, ?_, ?_, ?_⟩
  · rw [hconserved.flushed, length_flatMap_created hcounted, hbatches]
  · have hbalance := hconserved.balance
    rw [harrived, harrivals, Transit.kept, List.length_append,
      List.length_append, ← hconserved.flushed] at hbalance
    exact hbalance
  · rw [← hbatches]
    exact flatMap_created_eq_iff hcounted

/-- A trade at some price. -/
def trade (price : Int) : Tick where
  symbol := utf8 "BTCUSDT"
  price := .ofInt price
  volume := .ofInt 1
  timestamp := utf8 "2024-03-01T10:00:00Z"

/-- Two trades are committed to a server that is unavailable at first, and then
creates the first one and rejects the second. -/
def partialRejection : List Event :=
  [.traffic (.arrive [trade 1, trade 2]), .traffic .take,
    .commit Elastic.someDay (.utc Elastic.someDay) ⟨200, [true, false]⟩
      [⟨503, []⟩], .traffic .finish]

theorem run_partialRejection :
    ∃ s, run {} (App.limits Transit.roomForTwo) partialRejection = some s ∧
      s.transit.counted = [[trade 1, trade 2]] ∧ s.transit.buffer.flushed = 2 ∧
      s.receipts =
        [⟨[trade 1, trade 2], ⟨503, []⟩⟩,
          ⟨[trade 1, trade 2], ⟨200, [true, false]⟩⟩] := by
  have hseen :
      (run {} (App.limits Transit.roomForTwo) partialRejection).map (fun s =>
        (s.transit.counted, s.transit.buffer.flushed, s.receipts)) =
      some ([[trade 1, trade 2]], 2,
        [⟨[trade 1, trade 2], ⟨503, []⟩⟩,
          ⟨[trade 1, trade 2], ⟨200, [true, false]⟩⟩]) := by
    decide +kernel
  obtain ⟨s, hs, hfields⟩ := Option.map_eq_some_iff.mp hseen
  simp only [Prod.mk.injEq] at hfields
  exact ⟨s, hs, hfields⟩

theorem listsAll_partialRejection {s : Shipment}
    (hs : s.receipts = [⟨[trade 1, trade 2], ⟨503, []⟩⟩,
      ⟨[trade 1, trade 2], ⟨200, [true, false]⟩⟩]) :
    ∀ r ∈ s.accepted, r.ListsAll := by
  rw [accepted, hs]
  intro r hr
  obtain rfl := List.mem_singleton.mp (show r ∈ [_] from hr)
  rfl

/-- Both are flushed, and the second one was not created. -/
theorem flushed_of_partialRejection :
    ∃ s, run {} (App.limits Transit.roomForTwo) partialRejection = some s ∧
      (∀ r ∈ s.accepted, r.ListsAll) ∧ s.transit.buffer.flushed = 2 ∧
      s.counted.flatMap Receipt.created ≠ s.transit.counted.flatten := by
  obtain ⟨s, hs, hcounted, hflushed, hreceipts⟩ := run_partialRejection
  have hlists := listsAll_partialRejection hreceipts
  obtain ⟨-, -, -, hiff⟩ := flushed_iff_reported (by decide) hs hlists
  refine ⟨s, hs, hlists, hflushed, fun hall => ?_⟩
  have herrors := hiff.mp hall ⟨[trade 1, trade 2], ⟨200, [true, false]⟩⟩ (by
    rw [counted, accepted, hreceipts, hcounted]
    exact List.mem_singleton_self _)
  cases herrors

/-- Not every tick that is counted as flushed was reported as created. -/
theorem not_always_reported :
    ¬ ∀ (c valid : Config) (account : Elastic.Account) (es : List Event)
        (s : Shipment),
      c.validate = .ok valid → run account (App.limits valid) es = some s →
      (∀ r ∈ s.accepted, r.ListsAll) →
      ∀ t ∈ s.transit.counted.flatten, ∃ r ∈ s.receipts, t ∈ r.created := by
  intro hall
  obtain ⟨s, hs, hcounted, -, hreceipts⟩ := run_partialRejection
  have hreported := hall Transit.roomForTwo _ _ _ s rfl hs
    (listsAll_partialRejection hreceipts) (trade 2) (by
    rw [hcounted]
    exact List.mem_cons_of_mem _ (List.mem_singleton_self _))
  rw [hreceipts] at hreported
  revert hreported
  decide +kernel

end Shipment
end Ingest
end TickRelay
