import TickRelay.Proofs.BufferRecency
import TickRelay.Proofs.FlushLoop

/-!
# Triggers that are never set

A queue that is long enough has a trigger pending, or one is on its way, or the
loop is about to flush the queue. The one exception comes from arrivals that
see a failing storage and set no trigger: if they arrive during the commit that
succeeds, the storage is in order after it and the queue is long enough
already.

**Algorithm.** `Herald` is the invariant, about the events so far and the
state. Its two parts are about a batch that was taken from a failing storage,
behind which only later arrivals wait, and about a queue that is long enough
while the storage is in order.

**Results.** `herald_of_run` is the invariant along every run.
`pending_or_recovered` says what it means for a buffer in which nothing is
under way, and `not_always_pending` is a run that comes to the exception.
-/

namespace TickRelay
namespace Ingest
namespace Watch

variable {limits : Limits} {es before during after : List Event}
  {w u m n : Watch} {e : Event} {batch queue : List Tick}

/-- A batch was taken in the state `m` from a storage that was failing, and
after the events `during` it is still in flight, in the state `n`. -/
structure Aloft (limits : Limits) (before during : List Event) (m n : Watch)
    (batch : List Tick) : Prop where
  taken : run limits before = some m
  committing : m.transit.flight = some (.committing batch)
  empty : m.transit.buffer.queue = []
  failing : m.failing = true
  flown : Runs.run stepFailing m during = some n
  unfinished : .traffic .finish ∉ during
  flight : ∃ f, n.transit.flight = some f ∧ f.batch = batch
  queue : n.transit.buffer.queue <:+ arrivals during

/-- All that waits arrived during a commit that succeeded at last: the storage
was failing from the moment in which the batch was taken until it was counted,
and nothing has arrived since. -/
def Recovered (limits : Limits) (es : List Event) (queue : List Tick) : Prop :=
  ∃ before during after m n batch,
    es = before ++ during ++ .traffic .finish :: after ∧
    Aloft limits before during m n batch ∧
    n.transit.flight = some (.accepted batch) ∧
    queue <:+ arrivals during ∧ arrivals after = []

/-- A trigger is pending or still to be set, or the loop is about to flush. -/
def Announced (w : Watch) : Prop :=
  0 < w.transit.triggers ∨ ∃ cause, w.post = .due cause

/-- What is known of a watch after some events. -/
structure Herald (limits : Limits) (es : List Event) (w : Watch) : Prop where
  unchanged : w.transit.buffer.limits = limits
  aloft : ∀ f, w.failing = true → w.transit.flight = some f →
    ∃ before during m, es = before ++ during ∧
    Aloft limits before during m w f.batch
  herald : w.failing = false →
    limits.isFull w.transit.buffer.queue.length = true →
    w.transit.buffer.queue ≠ [] →
      w.Announced ∨ w.transit.flight = none ∧
      Recovered limits es w.transit.buffer.queue

theorem arrivals_append (es fs : List Event) :
    arrivals (es ++ fs) = arrivals es ++ arrivals fs :=
  List.flatMap_append

theorem arrivals_singleton (e : Event) : arrivals [e] = e.ticks :=
  List.flatMap_singleton _ _

/-- Events that bring nothing change nothing about what waits. -/
theorem Recovered.concat (h : Recovered limits es queue) (he : e.ticks = []) :
    Recovered limits (es ++ [e]) queue := by
  obtain ⟨before, during, after, m, n, batch, rfl, haloft, hflight,
    hqueue, hafter⟩ := h
  refine ⟨before, during, after ++ [e], m, n, batch, ?_, haloft,
    hflight, hqueue, ?_⟩
  · simp only [List.append_assoc, List.cons_append]
  · rw [arrivals_append, arrivals_singleton, hafter, he, List.append_nil]

/-- A batch stays in flight until its flush is finished. -/
theorem Aloft.concat (h : Aloft limits before during m w batch)
    (hmove : Move w e u) (hfailing : u.failing = true)
    (hfinish : e ≠ .traffic .finish)
    (hflight : ∃ f, u.transit.flight = some f ∧ f.batch = batch)
    (hqueue : u.transit.buffer.queue <:+ w.transit.buffer.queue ++ e.ticks) :
    Aloft limits before (during ++ [e]) m u batch := by
  have hstep : w.stepFailing e = some u :=
    stepFailing_eq_some.mpr ⟨step_of_move hmove, hfailing⟩
  refine ⟨h.taken, h.committing, h.empty, h.failing, ?_, ?_, hflight, ?_⟩
  · exact Runs.run_append.mpr ⟨w, h.flown, Runs.run_cons.mpr ⟨u, hstep, rfl⟩⟩
  · rw [List.mem_append, List.mem_singleton, not_or]
    exact ⟨h.unfinished, hfinish.symm⟩
  · rw [arrivals_append, arrivals_singleton]
    exact hqueue.trans (List.suffix_append_self_iff.mpr h.queue)

/-- A batch that is taken from a failing storage leaves an empty queue. -/
theorem aloft_of_take (hrun : run limits es = some u)
    (hfailing : u.failing = true)
    (hflight : u.transit.flight = some (.committing batch))
    (hqueue : u.transit.buffer.queue = []) : Aloft limits es [] u u batch :=
  ⟨hrun, hflight, hqueue, hfailing, rfl, List.not_mem_nil, ⟨_, hflight, rfl⟩,
    hqueue ▸ List.suffix_refl _⟩

/-- What flies on behind an event that finishes no flush. -/
theorem Herald.fly (h : Herald limits es w) (hmove : Move w e u) {f g : Flight}
    (hfailing : u.failing = true) (hsame : u.failing = w.failing)
    (hf : w.transit.flight = some f) (hg : u.transit.flight = some g)
    (hbatch : g.batch = f.batch) (hfinish : e ≠ .traffic .finish)
    (hqueue : u.transit.buffer.queue <:+ w.transit.buffer.queue ++ e.ticks) :
    ∃ before during m, es ++ [e] = before ++ during ∧
      Aloft limits before during m u g.batch := by
  obtain ⟨before, during, m, rfl, haloft⟩ :=
    h.aloft f (hsame.symm.trans hfailing) hf
  rw [hbatch]
  exact ⟨before, during ++ [e], m, List.append_assoc _ _ _,
    haloft.concat hmove hfailing hfinish ⟨g, hg, hbatch⟩ hqueue⟩

theorem Herald.aloft_of_move (h : Herald limits es w)
    (hrun : run limits (es ++ [e]) = some u) (hmove : Move w e u) :
    ∀ g, u.failing = true → u.transit.flight = some g →
      ∃ before during m, es ++ [e] = before ++ during ∧
        Aloft limits before during m u g.batch := by
  intro g hfailing hg
  have htaken : ∀ {batch : List Tick},
      u.transit.flight = some (.committing batch) →
      u.transit.buffer.queue = [] → ∃ before during m,
      es ++ [e] = before ++ during ∧
      Aloft limits before during m u g.batch := by
    intro batch hflight hqueue
    obtain rfl : g = .committing batch :=
      Option.some.inj (hg.symm.trans hflight)
    exact ⟨es ++ [e], [], u, (List.append_nil _).symm,
      aloft_of_take hrun hfailing hflight hqueue⟩
  have hkept : ∀ {ts : List Tick}, ts = [] →
      w.transit.buffer.queue <:+ w.transit.buffer.queue ++ ts := by
    rintro ts rfl
    simp
  cases hmove with
  | traffic hmoved =>
      have hmove := Move.traffic hmoved
      cases hmoved with
      | nothing =>
          exact h.fly hmove hfailing rfl hg hg rfl (by simp) (hkept rfl)
      | arrive hts =>
          exact h.fly hmove hfailing Buffer.failing_append hg hg rfl
            (by simp) Buffer.queue_append
      | signal hs =>
          exact h.fly hmove hfailing rfl hg hg rfl (by simp) (hkept rfl)
      | takeNothing hf hq =>
          exact h.fly hmove hfailing rfl hg hg rfl (by simp) (hkept rfl)
      | take hf hq => exact htaken rfl rfl
      | accept hf | refuse hf =>
          cases hg
          exact h.fly hmove hfailing rfl hf rfl rfl (by simp) (hkept rfl)
      | count hf | putBack hf => cases hg
  | @wake cause hpost hready =>
      have hmove := Move.wake hpost hready
      refine h.fly hmove hfailing Wake.failing_notice hg hg rfl (by simp) ?_
      show (cause.notice w.transit.buffer).queue <:+ _
      rw [Wake.queue_notice]
      exact hkept rfl
  | attemptNothing hpost hflight hqueue =>
      rw [hflight] at hg
      cases hg
  | attempt hpost hflight hqueue => exact htaken rfl rfl

theorem Herald.herald_of_move (h : Herald limits es w) (hmove : Move w e u)
    (hfailing : u.failing = false)
    (hfull : limits.isFull u.transit.buffer.queue.length = true)
    (hsome : u.transit.buffer.queue ≠ []) :
    u.Announced ∨ u.transit.flight = none ∧
    Recovered limits (es ++ [e]) u.transit.buffer.queue := by
  cases hmove with
  | traffic hmoved =>
      cases hmoved with
      | nothing =>
          rcases h.herald hfailing hfull hsome with hannounced |
            ⟨hflight, hrecovered⟩
          · exact Or.inl hannounced
          · exact Or.inr ⟨hflight, hrecovered.concat rfl⟩
      | @arrive ts hts =>
          have hsame : (w.transit.buffer.append ts).limits = limits :=
            (Buffer.limits_trim _).trans h.unchanged
          have hinOrder : (w.transit.buffer.append ts).failing = false :=
            hfailing
          have hlong :
              limits.isFull (w.transit.buffer.append ts).queue.length = true :=
            hfull
          have hwants : (w.transit.buffer.append ts).wantsCommit = true := by
            rw [Buffer.wantsCommit, hsame, hlong, hinOrder]
            rfl
          left
          left
          simp only [Transit.triggers, hwants, if_true]
          omega
      | signal hs =>
          have hset : w.transit.buffer.signal.trigger.toNat = 1 := rfl
          left
          left
          simp only [Transit.triggers, hset]
          omega
      | takeNothing hf hq => exact absurd hq hsome
      | take hf hq => exact absurd rfl hsome
      | accept hf | refuse hf =>
          rcases h.herald hfailing hfull hsome with hannounced | ⟨hflight, -⟩
          · exact Or.inl hannounced
          · rw [hf] at hflight
            cases hflight
      | @count batch hf =>
          -- The one event that clears the mark: what was known of the batch in
          -- flight is now about the commit that ended.
          cases hbefore : w.failing with
          | true =>
              obtain ⟨before, during, m, hsplit, haloft⟩ :=
                h.aloft _ hbefore hf
              refine Or.inr ⟨rfl, before, during, [], m, w, batch, ?_, haloft,
                hf, haloft.queue, rfl⟩
              rw [hsplit]
          | false =>
              rcases h.herald hbefore hfull hsome
                with (htriggers | ⟨cause, hdue⟩) | ⟨hflight, -⟩
              · exact Or.inl (Or.inl htriggers)
              · exact Or.inl (Or.inr ⟨cause, Post.relieved_eq_due.mpr hdue⟩)
              · rw [hf] at hflight
                cases hflight
      | putBack hf => cases hfailing
  | @wake cause hpost hready => exact Or.inl (Or.inr ⟨cause, rfl⟩)
  | attemptNothing hpost hflight hqueue => exact absurd hqueue hsome
  | attempt hpost hflight hqueue => exact absurd rfl hsome

theorem limits_of_move (hmove : Move w e u) :
    u.transit.buffer.limits = w.transit.buffer.limits := by
  cases hmove with
  | traffic hmoved =>
      cases hmoved with
      | arrive hts => exact Buffer.limits_trim _
      | putBack hf => exact Buffer.limits_trim _
      | _ => rfl
  | @wake cause hpost hready => cases cause <;> rfl
  | attemptNothing => rfl
  | attempt => rfl

/-- The invariant holds after every run. -/
theorem herald_of_run (h : run limits es = some w) : Herald limits es w := by
  refine Runs.run_history ?_ (fun es w e u hrun hw hstep => ?_) h
  · exact ⟨rfl, fun _ _ hflight => absurd hflight (Option.some_ne_none _).symm,
      fun _ _ hsome => absurd rfl hsome⟩
  · have hmove := move_of_step hstep
    have hnext : run limits (es ++ [e]) = some u :=
      Runs.run_append.mpr ⟨w, hrun, Runs.run_cons.mpr ⟨u, hstep, rfl⟩⟩
    exact ⟨(limits_of_move hmove).trans hw.unchanged,
      hw.aloft_of_move hnext hmove, hw.herald_of_move hmove⟩

/-- The storage is in order, no flush is under way or about to start, and no
arrival has still to set the trigger. -/
structure Settled (w : Watch) : Prop where
  inOrder : w.failing = false
  flight : w.transit.flight = none
  signals : w.transit.signals = 0
  post : ∀ cause, w.post ≠ .due cause

/-- **A queue that is long enough has its trigger, or waits since a recovery.**
In a state in which nothing is under way and the storage is in order, ticks
that wait and are as many as a commit is to have, or more, have a trigger
pending, or all of them arrived during the last commit, with which the storage
recovered, and nothing has arrived since. -/
theorem pending_or_recovered (h : run limits es = some w)
    (hsettled : w.Settled)
    (hfull : limits.commitBuffer.toInt ≤ w.transit.buffer.queue.length)
    (hsome : w.transit.buffer.queue ≠ []) :
    w.transit.buffer.trigger = true ∨
    Recovered limits es w.transit.buffer.queue := by
  have hlong : limits.isFull w.transit.buffer.queue.length = true :=
    decide_eq_true hfull
  rcases (herald_of_run h).herald hsettled.inOrder hlong hsome with
    (htriggers | ⟨cause, hdue⟩) | ⟨-, hrecovered⟩
  · left
    rw [Transit.triggers, hsettled.signals, Nat.add_zero] at htriggers
    cases htrigger : w.transit.buffer.trigger with
    | true => rfl
    | false =>
        rw [htrigger] at htriggers
        exact absurd htriggers (Nat.lt_irrefl 0)
  · exact absurd hdue (hsettled.post cause)
  · exact Or.inr hrecovered

/-- A commit fails, and another tick arrives during the commit that
succeeds. -/
def lateRecovery : List Event :=
  [.traffic (.arrive [{ symbol := [1] }]), .traffic .signal,
    .wake .trigger, .attempt,
    .traffic (.answer false), .traffic .finish, .wake .interval, .attempt,
    .traffic (.arrive [{ symbol := [2] }]), .traffic (.answer true),
    .traffic .finish]

theorem settled_of_lateRecovery :
    ∃ w, run (App.limits Transit.roomForTwo) lateRecovery = some w ∧
      w.Settled ∧ w.transit.buffer.queue = [{ symbol := [2] }] ∧
      w.transit.buffer.trigger = false := by
  have hseen : (run (App.limits Transit.roomForTwo) lateRecovery).map (fun w =>
      (w.failing, w.transit.flight, w.transit.signals, w.post,
        w.transit.buffer.queue,
        w.transit.buffer.trigger)) =
      some (false, none, 0, .idle, [{ symbol := [2] }], false) := rfl
  obtain ⟨w, hw, hfields⟩ := Option.map_eq_some_iff.mp hseen
  simp only [Prod.mk.injEq] at hfields
  obtain ⟨hfailing, hflight, hsignals, hpost, hqueue, htrigger⟩ := hfields
  refine ⟨w, hw, ⟨hfailing, hflight, hsignals, fun cause hdue => ?_⟩,
    hqueue, htrigger⟩
  rw [hpost] at hdue
  cases hdue

/-- The second tick of that run waits since a recovery. -/
theorem recovered_of_lateRecovery :
    ∃ w, run (App.limits Transit.roomForTwo) lateRecovery = some w ∧
      w.Settled ∧ Recovered (App.limits Transit.roomForTwo) lateRecovery
        w.transit.buffer.queue := by
  obtain ⟨w, hw, hsettled, hqueue, htrigger⟩ := settled_of_lateRecovery
  have hfull :
      (App.limits Transit.roomForTwo).commitBuffer.toInt ≤
        w.transit.buffer.queue.length := by
    rw [hqueue]
    decide
  have hsome : w.transit.buffer.queue ≠ [] := by
    rw [hqueue]
    exact List.cons_ne_nil _ _
  refine ⟨w, hw, hsettled, ?_⟩
  rcases pending_or_recovered hw hsettled hfull hsome with
    hpending | hrecovered
  · rw [htrigger] at hpending
    cases hpending
  · exact hrecovered

/-- Not every queue that is long enough has a trigger pending when nothing is
under way. -/
theorem not_always_pending :
    ¬ ∀ (c valid : Config) (es : List Event) (w : Watch),
      c.validate = .ok valid →
      run (App.limits valid) es = some w → w.Settled →
      valid.ingestion.commitBuffer.toInt ≤ w.transit.buffer.queue.length →
      w.transit.buffer.trigger = true := by
  intro hall
  obtain ⟨w, hw, hsettled, hqueue, htrigger⟩ := settled_of_lateRecovery
  have hpending :=
    hall Transit.roomForTwo Transit.roomForTwo lateRecovery
      w rfl hw hsettled (by
    rw [hqueue]
    decide)
  rw [htrigger] at hpending
  cases hpending

end Watch
end Ingest
end TickRelay
