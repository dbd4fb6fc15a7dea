import TickRelay.Feed.Run
import TickRelay.Proofs.Runs

/-!
# The run loop of the feed beside its callers

The loop registers a cancel function, looks whether the client was stopped,
waits until a connection is asked for, and opens session after session until
its context is canceled or it gives up. Meanwhile any number of callers may
stop the client: each sets the stopped flag, looks at the cancel function and
the socket, cancels, and closes the socket.

**Algorithm.** `Lifecycle.step` is one event, cut wherever the loop or a caller
touches what both of them see: the stopped flag, the registration, the context,
the stored socket and the connected flag. A wait is over when what it waits for
has happened or when the context is canceled, and when both have, either way
may be taken. A dial may fail or give a socket, whatever the context. The
session's own watcher closes its socket when the context is canceled, and a
socket may break at any time.

**Results.** `move_of_step` lists what an event does. `tidy_of_run`: the stored
socket and the connected flag are those of the place where the loop stands.
`run_start`, `run_exit`, `run_sessionEnded` and `run_disconnect`: without
interruption the events are the steps of `Runner` and `Client`.
-/

namespace TickRelay
namespace Feed

namespace Runner

variable {r : Runner} {n k : Nat} {lasted : Int}

theorem sessionEnded_of_done (h : r.isDone = true) :
    r.sessionEnded n lasted =
      ({ r with client := r.client.closeSession } : Runner).exit :=
  if_pos h

theorem sessionEnded_of_giveUp (h : r.isDone = false)
    (hdecision : Retry.afterSession r.retry n lasted = .giveUp) :
    r.sessionEnded n lasted = { r with
      client := r.client.closeSession,
      loop := .exited (some (Retry.gaveUp r.retry)) } := by
  have hclosed :
      ({ r with client := r.client.closeSession } : Runner).isDone = false := h
  simp [sessionEnded, hclosed, hdecision]

theorem sessionEnded_of_wait (h : r.isDone = false)
    (hdecision : Retry.afterSession r.retry n lasted = .wait k) :
    r.sessionEnded n lasted = { r with
      client := r.client.closeSession, loop := .dialing k } := by
  have hclosed :
      ({ r with client := r.client.closeSession } : Runner).isDone = false := h
  simp [sessionEnded, hclosed, hdecision]

end Runner

/-- Where the run loop stands, with the losses so far and the socket of its
session. -/
inductive Place where
  | idle
  /-- The cancel function is registered; the stopped flag comes next. -/
  | registered
  /-- Waiting until a connection is asked for. -/
  | waiting
  | dialing (losses : Nat)
  | dialed (losses socket : Nat)
  /-- The socket is stored; the connected flag comes next. -/
  | stored (losses socket : Nat)
  | reading (losses socket : Nat)
  /-- Reading has failed. -/
  | failed (losses socket : Nat)
  /-- The connected flag is cleared; the stored socket comes next. -/
  | unflagged (losses socket : Nat)
  /-- The session is over; the check of the context comes next. -/
  | ended (losses : Nat)
  /-- The context was not canceled; the decision comes next. -/
  | lost (losses : Nat)
  /-- Waiting before the next session. -/
  | pausing (losses : Nat)
  /-- The context was found canceled; a last look at the stopped flag comes
  next. -/
  | leaving
  | returned (failure : Option Fault)
  deriving DecidableEq

namespace Place

/-- The socket that is stored. -/
def socket : Place → Option Nat
  | stored _ k | reading _ k | failed _ k | unflagged _ k => some k
  | _ => none

/-- Whether the connected flag is set. -/
def isFlagged : Place → Bool
  | reading _ _ | failed _ _ => true
  | _ => false

/-- A place from which the loop goes on when something happens or the context
is canceled. -/
def isWait : Place → Bool
  | waiting | pausing _ => true
  | _ => false

/-- A place after the look at the stopped flag. -/
def isPast : Place → Bool
  | idle | registered => false
  | _ => true

/-- A place from which there is one way to go. -/
def isStraight : Place → Bool
  | idle | waiting | dialing _ | lost _ | pausing _ | returned _ => false
  | _ => true

/-- The loop without the places inside of a session. -/
def loop : Place → Loop
  | idle => .notStarted
  | registered | waiting => .waiting
  | reading n _ => .connected n
  | dialing n | dialed n _ | stored n _ | failed n _ | unflagged n _ =>
      .dialing n
  | ended n | lost n | pausing n => .dialing n
  | leaving => .waiting
  | returned f => .exited f

theorem rest_of_isWait {p : Place} (h : p.isWait = true) :
    p.socket = none ∧ p.isFlagged = false := by
  cases p with
  | waiting | pausing => exact ⟨rfl, rfl⟩
  | _ => cases h

theorem isPast_of_isWait {p : Place} (h : p.isWait = true) :
    p.isPast = true := by
  cases p with
  | waiting | pausing => rfl
  | _ => cases h

theorem not_isStraight_of_isWait {p : Place} (h : p.isWait = true) :
    p.isStraight = false := by
  cases p with
  | waiting | pausing => rfl
  | _ => cases h

end Place

/-- Where a caller stands that stops the client. -/
inductive Halt where
  /-- The stopped flag is set. -/
  | flagged
  /-- Whether there was a cancel function, and the socket that was stored. -/
  | looked (registered : Bool) (socket : Option Nat)
  | canceled (socket : Option Nat)
  | returned
  deriving DecidableEq

/-- The client, its run loop and the callers that stop it. -/
structure Lifecycle where
  client : Client
  retry : Config.Retry
  place : Place := .idle
  /-- Whether the context that the loop was started with is canceled. -/
  aborted : Bool := false
  /-- Whether the context of the loop is canceled. -/
  canceled : Bool := false
  /-- The connected flag. -/
  isFlagged : Bool := false
  /-- How many sockets there were; they are numbered from zero. -/
  opened : Nat := 0
  /-- The sockets that are closed or broken. -/
  closed : List Nat := []
  calls : List Halt := []

namespace Lifecycle

inductive Event where
  /-- The loop starts and registers its cancel function. -/
  | start
  /-- The loop takes its next step, where there is only one. -/
  | advance
  /-- A wait ends because what it waits for has happened. -/
  | proceed
  /-- A wait ends because the context is canceled. -/
  | heed
  /-- A dial ends. -/
  | dial (connects : Bool)
  /-- The decision after a session of some nanoseconds. -/
  | decide (lasted : Int)
  | connect
  | disconnect
  /-- The next step of a caller that stops the client. -/
  | turn (i : Nat)
  /-- The context that the loop was started with is canceled. -/
  | abort
  /-- The watcher of a session closes its socket. -/
  | watch
  /-- The socket of a session breaks. -/
  | fracture
  deriving DecidableEq

/-- Whether an event is a step of the run loop. -/
def Event.isOwn : Event → Bool
  | start | advance | proceed | heed | dial _ | decide _ => true
  | _ => false

def start (configured : List Bytes) (retry : Config.Retry) : Lifecycle :=
  { client := .ofConfigured configured, retry }

/-- The loop and its client as `Runner` has them. -/
def runner (m : Lifecycle) : Runner :=
  ⟨m.client, m.retry, m.place.loop, m.aborted⟩

def isRegistered (m : Lifecycle) : Bool := m.place != .idle

/-- The loop returns, and its context ends with it. -/
def leave (m : Lifecycle) (failure : Option Fault) : Lifecycle :=
  { m with place := .returned failure, canceled := true }

/-- The next step of the loop, where there is only one. -/
def advance? (m : Lifecycle) : Option Lifecycle :=
  match m.place with
  | .registered =>
    if m.client.isStopped then some (m.leave none)
    else some { m with place := .waiting }
  | .dialed n k =>
      some { m with
        client := (m.client.openSession k).1, place := .stored n k }
  | .stored n k => some { m with isFlagged := true, place := .reading n k }
  | .reading n k =>
      if k ∈ m.closed then some { m with place := .failed n k } else none
  | .failed n k => some { m with isFlagged := false, place := .unflagged n k }
  | .unflagged n k =>
    some { m with
      client := m.client.closeSession,
      closed := k :: m.closed,
      place := .ended n }
  | .ended n =>
      if m.canceled then some { m with place := .leaving }
      else some { m with place := .lost n }
  | .leaving => some (m.leave m.runner.exitFailure)
  | _ => none

/-- The next step of a caller that stops the client. -/
def turn? (m : Lifecycle) (i : Nat) : Option Lifecycle :=
  match m.calls[i]? with
  | some .flagged =>
      some { m with
        calls := m.calls.set i (.looked m.isRegistered m.client.socket) }
  | some (.looked registered socket) =>
    some { m with
      canceled := m.canceled || registered,
      calls := m.calls.set i (.canceled socket) }
  | some (.canceled socket) =>
    some { m with
      closed := socket.toList ++ m.closed, calls := m.calls.set i .returned }
  | _ => none

/-- One event. -/
def step (m : Lifecycle) : Event → Option Lifecycle
  | .start =>
    if m.place = .idle then some { m with
      canceled := m.aborted, place := .registered } else none
  | .advance => m.advance?
  | .proceed =>
    match m.place with
    | .waiting =>
        if m.client.isWanted then some { m with place := .dialing 0 } else none
    | .pausing n => some { m with place := .dialing n }
    | _ => none
  | .heed =>
      if m.place.isWait ∧ m.canceled then some { m with place := .leaving }
      else none
  | .dial connects =>
    match m.place with
    | .dialing n =>
      if connects then some { m with
        place := .dialed n m.opened, opened := m.opened + 1 }
      else some { m with place := .ended n }
    | _ => none
  | .decide lasted =>
    match m.place with
    | .lost n =>
      match Retry.afterSession m.retry n lasted with
      | .giveUp => some (m.leave (some (Retry.gaveUp m.retry)))
      | .wait n => some { m with place := .pausing n }
    | _ => none
  | .connect => some { m with client := m.client.connect }
  | .disconnect =>
      some { m with
        client := m.client.disconnect, calls := m.calls ++ [.flagged] }
  | .turn i => m.turn? i
  | .abort =>
      some { m with aborted := true, canceled := m.canceled || m.isRegistered }
  | .watch =>
    match m.place with
    | .reading _ k =>
        if m.canceled then some { m with closed := k :: m.closed } else none
    | _ => none
  | .fracture =>
    match m.place with
    | .reading _ k => some { m with closed := k :: m.closed }
    | _ => none

/-- What an event does. -/
inductive Move (m : Lifecycle) : Event → Lifecycle → Prop
  | starts (hplace : m.place = .idle) :
      Move m .start { m with canceled := m.aborted, place := .registered }
  | refuses (hplace : m.place = .registered)
      (hstopped : m.client.isStopped = true) : Move m .advance (m.leave none)
  | waits (hplace : m.place = .registered)
      (hstopped : m.client.isStopped = false) :
      Move m .advance { m with place := .waiting }
  | stores {n k : Nat} (hplace : m.place = .dialed n k) :
      Move m .advance { m with
        client := { m.client with socket := some k }, place := .stored n k }
  | flags {n k : Nat} (hplace : m.place = .stored n k) :
      Move m .advance { m with isFlagged := true, place := .reading n k }
  | fails {n k : Nat} (hplace : m.place = .reading n k)
      (hclosed : k ∈ m.closed) :
      Move m .advance { m with place := .failed n k }
  | unflags {n k : Nat} (hplace : m.place = .failed n k) :
      Move m .advance { m with isFlagged := false, place := .unflagged n k }
  | forgets {n k : Nat} (hplace : m.place = .unflagged n k) :
      Move m .advance { m with
        client := { m.client with socket := none },
        closed := k :: m.closed,
        place := .ended n }
  | stops {n : Nat} (hplace : m.place = .ended n)
      (hcanceled : m.canceled = true) :
      Move m .advance { m with place := .leaving }
  | loses {n : Nat} (hplace : m.place = .ended n)
      (hcanceled : m.canceled = false) :
      Move m .advance { m with place := .lost n }
  | exits (hplace : m.place = .leaving) :
      Move m .advance (m.leave m.runner.exitFailure)
  | proceeds {n : Nat} (hplace : m.place.isWait = true) :
      Move m .proceed { m with place := .dialing n }
  | heeds (hplace : m.place.isWait = true) (hcanceled : m.canceled = true) :
      Move m .heed { m with place := .leaving }
  | connects {n : Nat} (hplace : m.place = .dialing n) :
      Move m (.dial true) { m with
        place := .dialed n m.opened, opened := m.opened + 1 }
  | misses {n : Nat} (hplace : m.place = .dialing n) :
      Move m (.dial false) { m with place := .ended n }
  | givesUp {n : Nat} {lasted : Int} (hplace : m.place = .lost n) :
      Move m (.decide lasted) (m.leave (some (Retry.gaveUp m.retry)))
  | pauses {n k : Nat} {lasted : Int} (hplace : m.place = .lost n) :
      Move m (.decide lasted) { m with place := .pausing k }
  | wanted : Move m .connect { m with client := m.client.connect }
  | stopped : Move m .disconnect { m with
      client := m.client.disconnect, calls := m.calls ++ [.flagged] }
  | looks {i : Nat} (hcall : m.calls[i]? = some .flagged) :
      Move m (.turn i) { m with
        calls := m.calls.set i (.looked m.isRegistered m.client.socket) }
  | cancels {i : Nat} {registered : Bool} {socket : Option Nat}
      (hcall : m.calls[i]? = some (.looked registered socket)) :
      Move m (.turn i) { m with
        canceled := m.canceled || registered,
        calls := m.calls.set i (.canceled socket) }
  | closes {i : Nat} {socket : Option Nat}
      (hcall : m.calls[i]? = some (.canceled socket)) :
      Move m (.turn i) { m with
        closed := socket.toList ++ m.closed, calls := m.calls.set i .returned }
  | aborts :
      Move m .abort { m with
        aborted := true, canceled := m.canceled || m.isRegistered }
  | watches {n k : Nat} (hplace : m.place = .reading n k)
      (hcanceled : m.canceled = true) :
      Move m .watch { m with closed := k :: m.closed }
  | breaks {n k : Nat} (hplace : m.place = .reading n k) :
      Move m .fracture { m with closed := k :: m.closed }

variable {m m' : Lifecycle} {e : Event}

theorem move_of_advance (h : m.advance? = some m') : Move m .advance m' := by
  unfold advance? at h
  split at h
  case h_1 hplace =>
    split at h
    case isTrue hstopped =>
      cases h
      exact .refuses hplace hstopped
    case isFalse hstopped =>
      cases h
      exact .waits hplace (Bool.not_eq_true _ ▸ hstopped)
  case h_2 hplace =>
    cases h
    exact .stores hplace
  case h_3 hplace =>
    cases h
    exact .flags hplace
  case h_4 hplace =>
    split at h
    case isTrue hclosed =>
      cases h
      exact .fails hplace hclosed
    case isFalse => cases h
  case h_5 hplace =>
    cases h
    exact .unflags hplace
  case h_6 hplace =>
    cases h
    exact .forgets hplace
  case h_7 hplace =>
    split at h
    case isTrue hcanceled =>
      cases h
      exact .stops hplace hcanceled
    case isFalse hcanceled =>
      cases h
      exact .loses hplace (Bool.not_eq_true _ ▸ hcanceled)
  case h_8 hplace =>
    cases h
    exact .exits hplace
  case h_9 => cases h

theorem move_of_turn {i : Nat} (h : m.turn? i = some m') :
    Move m (.turn i) m' := by
  unfold turn? at h
  split at h
  case h_1 hcall =>
    cases h
    exact .looks hcall
  case h_2 hcall =>
    cases h
    exact .cancels hcall
  case h_3 hcall =>
    cases h
    exact .closes hcall
  case h_4 => cases h

theorem move_of_step (h : m.step e = some m') : Move m e m' := by
  cases e with
  | start =>
      simp only [step] at h
      split at h
      case isTrue hplace =>
        cases h
        exact .starts hplace
      case isFalse => cases h
  | advance => exact move_of_advance h
  | proceed =>
      simp only [step] at h
      split at h
      case h_1 hplace =>
        split at h
        case isTrue =>
          cases h
          exact .proceeds (by rw [hplace]; rfl)
        case isFalse => cases h
      case h_2 hplace =>
        cases h
        exact .proceeds (by rw [hplace]; rfl)
      case h_3 => cases h
  | heed =>
      simp only [step] at h
      split at h
      case isTrue hready =>
        cases h
        exact .heeds hready.1 hready.2
      case isFalse => cases h
  | dial connects =>
      simp only [step] at h
      split at h
      case h_1 hplace =>
        cases connects with
        | true =>
            cases h
            exact .connects hplace
        | false =>
            cases h
            exact .misses hplace
      case h_2 => cases h
  | decide lasted =>
      simp only [step] at h
      split at h
      case h_1 hplace =>
        split at h
        case h_1 =>
          cases h
          exact .givesUp hplace
        case h_2 =>
          cases h
          exact .pauses hplace
      case h_2 => cases h
  | connect =>
      cases h
      exact .wanted
  | disconnect =>
      cases h
      exact .stopped
  | turn i => exact move_of_turn h
  | abort =>
      cases h
      exact .aborts
  | watch =>
      simp only [step] at h
      split at h
      case h_1 hplace =>
        split at h
        case isTrue hcanceled =>
          cases h
          exact .watches hplace hcanceled
        case isFalse => cases h
      case h_2 => cases h
  | fracture =>
      simp only [step] at h
      split at h
      case h_1 hplace =>
        cases h
        exact .breaks hplace
      case h_2 => cases h

/-- The stored socket and the connected flag are those of the place. -/
structure Tidy (m : Lifecycle) : Prop where
  socket : m.client.socket = m.place.socket
  isFlagged : m.isFlagged = m.place.isFlagged

/-- A move from one place without socket to another keeps the state tidy. -/
theorem Tidy.at_rest {p : Place} (h : m.Tidy)
    (hclient : m'.client.socket = m.client.socket)
    (hflag : m'.isFlagged = m.isFlagged) (hplace : m'.place = p)
    (hsame : p.socket = m.place.socket ∧ p.isFlagged = m.place.isFlagged) :
    m'.Tidy := by
  refine ⟨?_, ?_⟩
  · rw [hclient, h.socket, hplace, hsame.1]
  · rw [hflag, h.isFlagged, hplace, hsame.2]

theorem Tidy.move (h : m.Tidy) (hmove : Move m e m') : m'.Tidy := by
  cases hmove with
  | starts hplace | refuses hplace | waits hplace | fails hplace | stops hplace
  | loses hplace | exits hplace | connects hplace | misses hplace
  | givesUp hplace | pauses hplace =>
      exact h.at_rest rfl rfl rfl (by rw [hplace]; exact ⟨rfl, rfl⟩)
  | proceeds hplace | heeds hplace =>
      obtain ⟨hsocket, hflag⟩ := Place.rest_of_isWait hplace
      exact h.at_rest rfl rfl rfl (by rw [hsocket, hflag]; exact ⟨rfl, rfl⟩)
  | stores hplace =>
      refine ⟨rfl, ?_⟩
      exact h.isFlagged.trans (by rw [hplace]; rfl)
  | flags hplace =>
      refine ⟨?_, rfl⟩
      exact h.socket.trans (by rw [hplace]; rfl)
  | unflags hplace =>
      refine ⟨?_, rfl⟩
      exact h.socket.trans (by rw [hplace]; rfl)
  | forgets hplace =>
      refine ⟨rfl, ?_⟩
      exact h.isFlagged.trans (by rw [hplace]; rfl)
  | wanted | stopped | looks | cancels | closes | aborts | watches | breaks =>
      exact ⟨h.socket, h.isFlagged⟩

theorem tidy_start (configured : List Bytes) (retry : Config.Retry) :
    (start configured retry).Tidy := ⟨rfl, rfl⟩

theorem tidy_of_run {configured : List Bytes} {retry : Config.Retry}
    {es : List Event}
    (h : Runs.run step (start configured retry) es = some m) : m.Tidy :=
  Runs.run_invariant (fun _ _ _ hm hstep => hm.move (move_of_step hstep))
    (tidy_start configured retry) h

section Uninterrupted

/-- The loop starts by registering and looking at the stopped flag. -/
theorem run_start (hplace : m.place = .idle) :
    ∃ m', Runs.run step m [.start, .advance] = some m' ∧
      m'.runner = m.runner.start := by
  refine ⟨if m.client.isStopped then { m with
    canceled := m.aborted }.leave none
    else { m with canceled := m.aborted, place := .waiting }, ?_, ?_⟩
  · simp only [Runs.run, step, hplace, if_true, Option.bind_some, advance?]
    split <;> rfl
  · cases hstopped : m.client.isStopped with
    | true => simp [runner, Runner.start, hstopped, leave, Place.loop]
    | false => simp [runner, Runner.start, hstopped, Place.loop]

/-- A wait that heeds the context ends the loop. -/
theorem run_exit (htidy : m.Tidy) (hplace : m.place.isWait = true)
    (hcanceled : m.canceled = true) :
    ∃ m', Runs.run step m [.heed, .advance] = some m' ∧
      m'.runner = m.runner.exit := by
  refine ⟨m.leave m.runner.exitFailure, ?_, ?_⟩
  · simp only [Runs.run, step, hplace, hcanceled, and_self, if_true,
      Option.bind_some, advance?]
    rfl
  · have hsocket : m.client.socket = none :=
      htidy.socket.trans (Place.rest_of_isWait hplace).1
    have hclient : m.client.closeSession = m.client := by
      rw [Client.closeSession, ← hsocket]
    simp only [runner, leave, Runner.exit, hclient, Place.loop]

/-- The events of the loop after a session has failed. -/
def aftermath (m : Lifecycle) (lasted : Int) : List Event :=
  [.advance, .advance, .advance,
    if m.canceled then .advance else .decide lasted]

/-- The loop after the check that follows a failed session. -/
def checked (m : Lifecycle) (n k : Nat) : Lifecycle :=
  { m with
    client := m.client.closeSession
    isFlagged := false
    closed := k :: m.closed
    place := if m.canceled then .leaving else .lost n }

theorem run_checked {n k : Nat} (hplace : m.place = .failed n k) :
    Runs.run step m [.advance, .advance, .advance] = some (m.checked n k) := by
  simp only [Runs.run, step, advance?, hplace, Option.bind_some]
  cases hcanceled : m.canceled <;> simp [checked, hcanceled]

theorem run_sessionEnded {n k : Nat} (hplace : m.place = .failed n k)
    (hcanceled : m.canceled = m.runner.isDone) (lasted : Int) :
    ∃ m', Runs.run step m (m.aftermath lasted) = some m' ∧
      m'.runner = m.runner.sessionEnded n lasted := by
  have hcut :
      m.aftermath lasted =
        [.advance, .advance, .advance] ++
        [if m.canceled then .advance else .decide lasted] := rfl
  simp only [hcut, Runs.run_append, run_checked hplace]
  cases hdone : m.canceled with
  | true =>
      refine ⟨(m.checked n k).leave (m.checked n k).runner.exitFailure,
        ⟨_, rfl, ?_⟩, ?_⟩
      · simp [Runs.run, step, advance?, checked, hdone]
      · rw [Runner.sessionEnded_of_done (hcanceled.symm.trans hdone)]
        rfl
  | false =>
      have hgoesOn : m.runner.isDone = false := hcanceled.symm.trans hdone
      cases hdecision : Retry.afterSession m.retry n lasted with
      | giveUp =>
          refine ⟨(m.checked n k).leave (some (Retry.gaveUp m.retry)),
            ⟨_, rfl, ?_⟩, ?_⟩
          · simp [Runs.run, step, checked, hdone, hdecision]
          · rw [Runner.sessionEnded_of_giveUp hgoesOn hdecision]
            rfl
      | wait l =>
          refine ⟨{ m.checked n k with place := .pausing l }, ⟨_, rfl, ?_⟩, ?_⟩
          · simp [Runs.run, step, checked, hdone, hdecision]
          · rw [Runner.sessionEnded_of_wait hgoesOn hdecision]
            rfl

/-- A caller that stops the client without being interrupted. -/
theorem run_disconnect (m : Lifecycle) :
    Runs.run step m [.disconnect, .turn m.calls.length, .turn m.calls.length,
        .turn m.calls.length] =
      some { m with
        client := m.client.disconnect
        canceled := m.canceled || m.isRegistered
        closed := m.client.socket.toList ++ m.closed
        calls := m.calls ++ [.returned] } := by
  simp [Runs.run, step, turn?, isRegistered, Client.disconnect]

end Uninterrupted

end Lifecycle
end Feed
end TickRelay
