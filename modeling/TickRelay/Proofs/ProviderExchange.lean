import TickRelay.Hub
import TickRelay.Proofs.Runs
import Mathlib.Tactic.Set

/-!
# Registry calls under way

Clients subscribe and withdraw at the same time. A call first changes the
subscribers, at once, and then settles with the provider what it found: a
symbol that is new, or symbols that are idle. For each of them it waits for the
lock of the provider, looks at the subscribers again, makes the calls it
decided on one by one, and gives the lock back. Other calls may change the
subscribers between any two of these steps, also while the lock is held.

**Algorithm.** `Exchange.step` is one event. Changes of subscribers go through
`Hub.join`, `Hub.leave` and `Registry.leaveAll`, the second look through
`callsAfterJoin` and `callsAfterLeave`, and every call of the provider through
`Hub.call`. A client that withdraws everything settles its idle symbols in any
order.

**Results.** `joined_of_run` says that the record of subscribed symbols is
complete. `run_errand` puts the events of one errand together again: without
interruption they are `Hub.afterJoin` or `Hub.afterLeave`.
-/

namespace TickRelay

/-- What a call has to settle with the provider. -/
inductive Errand where
  /-- The symbol was new. -/
  | join (symbol : Bytes)
  /-- The symbol became idle. -/
  | leave (symbol : Bytes)
  deriving DecidableEq

/-- What is asked of the provider, as the subscribers are now. -/
def Errand.calls (h : Hub) : Errand → List ProviderCall
  | join s => h.registry.callsAfterJoin s
  | leave s => h.registry.callsAfterLeave h.releaseOnIdle s

/-- The hub after an errand that nothing interrupts. -/
def Errand.done (h : Hub) : Errand → Hub
  | join s => (h.afterJoin s).1
  | leave s => (h.afterLeave s).1

/-- The call that holds the lock. -/
structure Holder where
  errand : Errand
  /-- The calls decided on and not made yet; none before the look at the
  subscribers. -/
  plan : Option (List ProviderCall) := none
  /-- The errands that follow, each under a lock of its own. -/
  rest : List Errand

/-- The hub and the calls under way. -/
structure Exchange where
  hub : Hub
  /-- The calls that wait for the lock, each with its errands. -/
  waiting : List (List Errand) := []
  holder : Option Holder := none
  /-- The symbols that were ever subscribed. -/
  joined : List Bytes := []

namespace Exchange

/-- What can happen. -/
inductive Event where
  | subscribe (client symbol : Bytes)
  | unsubscribe (client symbol : Bytes)
  /-- A client withdraws everything, and settles the idle symbols in an order
  of its own. -/
  | unsubscribeAll (client : Bytes) (order : List Bytes)
  /-- One of the waiting calls gets the lock. -/
  | lock (n : Nat)
  /-- The holder looks at the subscribers again. -/
  | look
  /-- The holder makes the next call. -/
  | call
  | unlock
  /-- Whatever else changes: admissions, connections, counters, the wish for a
  connection and the socket of the feed. -/
  | outside (limiter : Limiter) (pool : Pool) (metrics : Metrics)
      (wanted stopped : Bool)
      (socket : Option Nat) (received : Nat)

/-- Whether an event subscribes a symbol, given in normal form. -/
def Event.Joins (s : Bytes) : Event → Prop
  | subscribe _ symbol => Symbol.normalize symbol = s ∧ s ≠ []
  | _ => False

/-- A hub whose feed has the configured symbols, and no calls. -/
def start (limiter : Limiter) (configured : List Bytes)
    (releaseOnIdle : Bool) : Exchange :=
  { hub := { limiter, feed := .ofConfigured configured, releaseOnIdle } }

/-- A call waits with its errands. It is over when it has none. -/
def enqueue (errands : List Errand) (x : Exchange) : Exchange :=
  if errands.isEmpty then x else { x with waiting := x.waiting ++ [errands] }

/-- Errands for idle symbols; there are none when symbols are kept. -/
def releases (h : Hub) (idle : List Bytes) : List Errand :=
  if h.releaseOnIdle then idle.map .leave else []

/-- One event. -/
def step (x : Exchange) : Event → Option Exchange
  | .subscribe client symbol =>
    let s := Symbol.normalize symbol
    if s = [] then some x
    else
      let (hub, isNew) := x.hub.join client s
      some ({ x with
        hub,
        joined := s :: x.joined }.enqueue (if isNew then [.join s] else []))
  | .unsubscribe client symbol =>
    let s := Symbol.normalize symbol
    if s = [] then some x
    else
      let (hub, idle) := x.hub.leave client s
      some ({ x with hub }.enqueue (releases hub (if idle then [s] else [])))
  | .unsubscribeAll client order =>
    let (registry, _, idle) := x.hub.registry.leaveAll client
    if !order.isPerm idle then none
    else some ({ x with
      hub := { x.hub with registry } }.enqueue (releases x.hub order))
  | .lock n =>
    match x.holder, x.waiting[n]? with
    | none, some (errand :: rest) =>
      some { x with
        holder := some { errand, rest }, waiting := x.waiting.eraseIdx n }
    | _, _ => none
  | .look =>
    match x.holder with
    | some ⟨errand, none, rest⟩ =>
      some { x with
        holder := some { errand, plan := some (errand.calls x.hub), rest } }
    | _ => none
  | .call =>
    match x.holder with
    | some ⟨errand, some (c :: cs), rest⟩ =>
      some { x with
        hub := x.hub.call [c],
        holder := some { errand, plan := some cs, rest } }
    | _ => none
  | .unlock =>
    match x.holder with
    | some ⟨_, some [], rest⟩ => some ({ x with holder := none }.enqueue rest)
    | _ => none
  | .outside limiter pool metrics wanted stopped socket received =>
    let feed : Feed.Client := { x.hub.feed with
      isWanted := x.hub.feed.isWanted || wanted
      isStopped := stopped
      socket
      received }
    some { x with hub := { x.hub with limiter, pool, metrics, feed } }

/-- No call is under way. -/
def Quiet (x : Exchange) : Prop := x.waiting = [] ∧ x.holder = none

variable {x y : Exchange} {e : Event}

@[simp] theorem enqueue_hub (errands : List Errand) :
    (x.enqueue errands).hub = x.hub := by
  unfold enqueue
  split <;> rfl

@[simp] theorem enqueue_holder (errands : List Errand) :
    (x.enqueue errands).holder = x.holder := by
  unfold enqueue
  split <;> rfl

@[simp] theorem enqueue_joined (errands : List Errand) :
    (x.enqueue errands).joined = x.joined := by
  unfold enqueue
  split <;> rfl

theorem mem_releases {h : Hub} {idle : List Bytes} {s : Bytes} :
    .leave s ∈ releases h idle ↔ h.releaseOnIdle = true ∧ s ∈ idle := by
  unfold releases
  split
  · rename_i hr
    simp [hr]
  · rename_i hr
    simp [hr]

/-- What an event does to the setting and to the record of subscribed
symbols. -/
theorem step_record (h : x.step e = some y) :
    y.hub.releaseOnIdle = x.hub.releaseOnIdle ∧
      ∀ s, s ∈ x.joined ∨ e.Joins s → s ∈ y.joined := by
  cases e with
  | subscribe client symbol =>
      simp only [step] at h
      split at h
      · rename_i hs
        cases h
        refine ⟨rfl, ?_⟩
        rintro s (hj | ⟨rfl, hne⟩)
        · exact hj
        · exact absurd hs hne
      · cases h
        refine ⟨by rw [enqueue_hub]; rfl, ?_⟩
        rw [enqueue_joined]
        rintro s (hj | ⟨rfl, _⟩)
        · exact List.mem_cons_of_mem _ hj
        · exact List.mem_cons_self
  | unsubscribe client symbol =>
      simp only [step] at h
      split at h
      · cases h
        exact ⟨rfl, fun s hs => hs.resolve_right id⟩
      · cases h
        refine ⟨by rw [enqueue_hub]; rfl, ?_⟩
        rw [enqueue_joined]
        exact fun s hs => hs.resolve_right id
  | unsubscribeAll client order =>
      simp only [step] at h
      split at h
      · cases h
      · cases h
        refine ⟨by rw [enqueue_hub], ?_⟩
        rw [enqueue_joined]
        exact fun s hs => hs.resolve_right id
  | lock n =>
      simp only [step] at h
      split at h
      · cases h
        exact ⟨rfl, fun s hs => hs.resolve_right id⟩
      · cases h
  | look =>
      simp only [step] at h
      split at h
      · cases h
        exact ⟨rfl, fun s hs => hs.resolve_right id⟩
      · cases h
  | call =>
      simp only [step] at h
      split at h
      · cases h
        exact ⟨rfl, fun s hs => hs.resolve_right id⟩
      · cases h
  | unlock =>
      simp only [step] at h
      split at h
      · cases h
        refine ⟨by rw [enqueue_hub], ?_⟩
        rw [enqueue_joined]
        exact fun s hs => hs.resolve_right id
      · cases h
  | outside =>
      cases h
      exact ⟨rfl, fun s hs => hs.resolve_right id⟩

theorem releaseOnIdle_of_run {es : List Event}
    (h : Runs.run step x es = some y) :
    y.hub.releaseOnIdle = x.hub.releaseOnIdle :=
  Runs.run_invariant (P := fun z => z.hub.releaseOnIdle = x.hub.releaseOnIdle)
    (fun _ _ _ hz hstep => (step_record hstep).1.trans hz) rfl h

/-- Every symbol that was subscribed is on record. -/
theorem joined_of_run {es : List Event} {s : Bytes}
    (h : Runs.run step x es = some y)
    (hs : s ∈ x.joined ∨ ∃ e ∈ es, e.Joins s) : s ∈ y.joined := by
  induction es generalizing x with
  | nil =>
      cases h
      rcases hs with hj | ⟨_, he, _⟩
      · exact hj
      · cases he
  | cons e es ih =>
      obtain ⟨z, hstep, hrun⟩ := Runs.run_cons.mp h
      apply ih hrun
      rcases hs with hj | ⟨d, hd, hjoins⟩
      · exact Or.inl ((step_record hstep).2 s (Or.inl hj))
      · rcases List.mem_cons.mp hd with rfl | hd
        · exact Or.inl ((step_record hstep).2 s (Or.inr hjoins))
        · exact Or.inr ⟨d, hd, hjoins⟩

/-- A holder makes all the calls of its plan. -/
theorem run_calls {errand : Errand} {rest : List Errand}
    {cs : List ProviderCall}
    (hheld : x.holder = some ⟨errand, some cs, rest⟩) :
    Runs.run step x (List.replicate cs.length .call) = some { x with
      hub := x.hub.call cs, holder := some ⟨errand, some [], rest⟩ } := by
  induction cs generalizing x with
  | nil =>
      rw [← hheld]
      rfl
  | cons c cs ih =>
      refine Runs.run_cons.mpr ⟨{ x with
        hub := x.hub.call [c],
        holder := some ⟨errand, some cs, rest⟩ }, ?_, ?_⟩
      · simp [step, hheld]
      · exact ih rfl

/-- The events of one errand, without interruption, are `Hub.afterJoin` or
`Hub.afterLeave`. -/
theorem run_errand {n : Nat} {errand : Errand} {rest : List Errand}
    (hfree : x.holder = none) (hn : x.waiting[n]? = some (errand :: rest)) :
    Runs.run step x (.lock n :: .look ::
        List.replicate (errand.calls x.hub).length .call ++ [.unlock]) =
      some ({ x with
        hub := errand.done x.hub,
        waiting := x.waiting.eraseIdx n }.enqueue rest) := by
  set locked : Exchange :=
    { x with
      holder := some ⟨errand, none, rest⟩,
      waiting := x.waiting.eraseIdx n } with hlocked
  set looked : Exchange :=
    { locked with
      holder := some ⟨errand, some (errand.calls x.hub), rest⟩ } with hlooked
  have hlock : x.step (.lock n) = some locked := by
    simp [step, hfree, hn, hlocked]
  have hlook : locked.step .look = some looked := rfl
  have hcalls := run_calls (x := looked) rfl
  refine Runs.run_append.mpr
    ⟨_, Runs.run_cons.mpr ⟨_, hlock, Runs.run_cons.mpr ⟨_, hlook, hcalls⟩⟩, ?_⟩
  have hdone : errand.done x.hub = x.hub.call (errand.calls x.hub) := by
    cases errand <;> rfl
  rw [hdone, hfree]
  rfl

end Exchange
end TickRelay
