import TickRelay.Server.Visit
import TickRelay.Proofs.HubView
import TickRelay.Proofs.RegistryView
import TickRelay.Proofs.Runs

/-!
# Delivery of ticks among clients who come and go

Three actors share the session of a connection. The dispatcher offers it ticks,
its reader offers it error frames, and its pump takes frames out and writes
them. Anybody may close it at any time.

**Algorithm.** `Broadcast.step` is one event. A frame is offered in two steps:
first the session is asked whether it is open, then the frame is queued if
there is room, whatever happened in between. The dispatcher delivers one tick
after the other, each in a round: it copies the subscribers, looks up the
connection of one after the other, offers the frame, counts what came of it,
and closes the connection if there was no room.

**Results.** `Session.send_eq` puts the two halves of an offer together.
`arrive_cases`, `turn_cases` and so on say what came before an event and what
comes after it; `move_of_step` lists what any event does to the connections, to
the counters and to the round.
-/

namespace TickRelay

namespace Session

/-- The second half of `send`, when the session was open a moment ago. -/
def enqueue (s : Session) (frame : Bytes) : Session × Option SendError :=
  if s.queue.length < s.capacity then
    ({ s with queue := s.queue ++ [frame] }, none)
  else (s, some .full)

theorem send_eq (s : Session) (frame : Bytes) :
    s.send frame =
      if s.isOpen then s.enqueue frame else (s, some .closed) := by
  unfold send enqueue
  cases s.isOpen <;> rfl

end Session

namespace Server

/-- A frame that a session took, by the one who offered it. -/
inductive Queued where
  | tick (frame : Bytes)
  | notice (frame : Bytes)
  deriving DecidableEq

namespace Queued

def frame : Queued → Bytes
  | tick f => f
  | notice f => f

def tick? : Queued → Option Bytes
  | tick f => some f
  | notice _ => none

/-- What the client gets to read. -/
def text (q : Queued) : Bytes := Websocket.frame .text q.frame

end Queued

/-- What a reader does with an error frame. -/
inductive Reply where
  | nothing
  /-- It is to be offered. -/
  | unsent (frame : Bytes)
  /-- The session was open, and it is to be queued. -/
  | asked (frame : Bytes)
  deriving DecidableEq

/-- A connection with its reader and its pump, and a record of what happened to
it. -/
structure Line where
  visit : Visit
  reply : Reply := .nothing
  pumping : Bool := true
  /-- What the pump is writing. -/
  writing : Option Bytes := none
  /-- The frames that the session took. -/
  accepted : List Queued := []
  /-- The text frames that were written. -/
  written : List Bytes := []
  /-- The ticks for which there was no room. -/
  refused : List Bytes := []
  /-- How many of its ticks were counted as sent. -/
  sent : Nat := 0
  /-- How many of its ticks were counted as errors. -/
  faults : Nat := 0

namespace Line

def session (l : Line) : Session := l.visit.session

def client (l : Line) : Bytes := l.visit.client

/-- The ticks that the session took. -/
def ticks (l : Line) : List Bytes := l.accepted.filterMap Queued.tick?

def withSession (l : Line) (session : Session) : Line :=
  { l with visit := { l.visit with session } }

/-- The reader goes on with its error frame. It stops reading if the frame is
not taken. -/
def answer (l : Line) : Option Line :=
  match l.reply with
  | .nothing => none
  | .unsent frame =>
    if l.session.isOpen then some { l with reply := .asked frame }
    else some { l with reply := .nothing, visit := l.visit.endReading }
  | .asked frame =>
    match l.session.enqueue frame with
    | (session, none) =>
      some { l.withSession session with
        reply := .nothing, accepted := l.accepted ++ [.notice frame] }
    | (_, some _) =>
      some { l with reply := .nothing, visit := l.visit.endReading }

def hangUp (l : Line) : Option Line :=
  if l.visit.stage = .reading ∧ l.reply = .nothing then some { l with
    visit := l.visit.endReading }
  else none

/-- The pump takes the oldest frame out. -/
def take (l : Line) : Option Line :=
  if l.pumping && l.writing.isNone && l.session.canPump .frame then
    some { l.withSession (l.session.pump .frame).1 with
      writing := some (l.session.pump .frame).2 }
  else none

/-- The pump writes the frame, or fails to and stops. -/
def write (ok : Bool) (l : Line) : Option Line :=
  match l.writing with
  | none => none
  | some bytes =>
    if !l.pumping then none
    else if ok then some { l with
      writing := none, written := l.written ++ [bytes] }
    else some { l with pumping := false }

def stop (l : Line) : Option Line :=
  if l.writing.isNone then some { l with pumping := false } else none

/-- Somebody closes the session. -/
def close (l : Line) : Line := l.withSession l.session.close

end Line

/-- How far the offer of a tick to a connection has come. -/
inductive Phase where
  /-- The connection was found in the pool. -/
  | found
  /-- Its session was open. -/
  | asked
  /-- The frame was taken, which is to be counted. -/
  | accepted
  /-- There was no room, which is to be counted. -/
  | refused
  /-- The error is counted, and the session is to be closed. -/
  | closing
  deriving DecidableEq, Repr

/-- A tick that is delivered. -/
structure Dispatched where
  frame : Bytes
  /-- The subscribers when it came. -/
  subscribers : List Bytes
  /-- The connections that were found in the pool and open. -/
  found : List Nat := []

/-- The delivery of one tick. -/
structure Round where
  current : Dispatched
  /-- The subscribers who were not looked up yet. -/
  waiting : List Bytes
  /-- The connection in hand. -/
  hand : Option (Nat × Phase) := none

/-- The hub, the connections and the dispatcher. The key of a connection is its
place. -/
structure Broadcast where
  hub : Hub
  lines : List Line := []
  /-- The ticks that were delivered. -/
  past : List Dispatched := []
  round : Option Round := none
  /-- Errors that are not about the delivery of a tick. -/
  complaints : Nat := 0

namespace Broadcast

inductive Event where
  /-- A connection of a client asks for admission. -/
  | arrive (now : Instant) (client : Bytes)
  | read (n : Nat) (payload : Bytes)
  /-- A reader goes on with its error frame. -/
  | answer (n : Nat)
  /-- A reader can read no more. -/
  | hangUp (n : Nat)
  /-- The next step of a visit that reads no more. -/
  | turn (n : Nat)
  | remove (client : Bytes)
  | closeAll
  | close (n : Nat)
  | take (n : Nat)
  | write (n : Nat) (ok : Bool)
  | stop (n : Nat)
  | dispatch (t : Tick)
  /-- The dispatcher looks a subscriber up. -/
  | look (client : Bytes)
  /-- The dispatcher goes on with the connection in hand. -/
  | advance
  /-- The dispatcher has come to the end of a round. -/
  | finish (latency : Binary64)
  /-- Limiter and feed change, messages and other errors are counted. -/
  | outside (limiter : Limiter) (feed : Feed.Client) (messages errors : Nat)

/-- A hub without connections and subscribers. -/
def start (limiter : Limiter) (feed : Feed.Client) (releaseOnIdle : Bool) :
    Broadcast :=
  { hub := { limiter, feed, releaseOnIdle } }

def onLine (w : Broadcast) (n : Nat) (f : Line → Option Line) :
    Option Broadcast :=
  w.lines[n]?.bind fun l => (f l).map fun l' =>
    { w with lines := w.lines.set n l' }

/-- The dispatcher goes on with the connection in hand. -/
def advance (w : Broadcast) (r : Round) (n : Nat) (l : Line) :
    Phase → Broadcast
  | .found =>
    if l.session.isOpen then
      { w with round := some { r with
        current := { r.current with found := r.current.found ++ [n] },
        hand := some (n, .asked) } }
    else { w with round := some { r with hand := none } }
  | .asked =>
    match l.session.enqueue r.current.frame with
    | (session, none) =>
      { w with
        lines := w.lines.set n
          { l.withSession session with
            accepted := l.accepted ++ [.tick r.current.frame] }
        round := some { r with hand := some (n, .accepted) } }
    | (_, some _) =>
      { w with
        lines :=
          w.lines.set n { l with refused := l.refused ++ [r.current.frame] }
        round := some { r with hand := some (n, .refused) } }
  | .accepted =>
    { w with
      hub := { w.hub with metrics := w.hub.metrics.sent }
      lines := w.lines.set n { l with sent := l.sent + 1 }
      round := some { r with hand := none } }
  | .refused =>
    { w with
      hub := { w.hub with metrics := w.hub.metrics.failed }
      lines := w.lines.set n { l with faults := l.faults + 1 }
      round := some { r with hand := some (n, .closing) } }
  | .closing =>
    { w with lines := w.lines.set n l.close, round := some { r with
      hand := none } }

def step (queueSize : Int64) (w : Broadcast) : Event → Option Broadcast
  | .arrive now client =>
    match Session.create? client queueSize with
    | none => none
    | some session =>
      match Visit.admission now ⟨w.lines.length, client⟩ session w.hub with
      | (hub, .admitted visit _) =>
        some { w with hub, lines := w.lines ++ [{ visit }] }
      | (hub, .refused _) =>
        some { w with hub, complaints := w.complaints + 1 }
  | .read n payload =>
    match w.lines[n]? with
    | none => none
    | some l =>
      if l.visit.stage = .reading ∧ l.reply = .nothing then
        match Visit.act l.client payload { w.hub with
            metrics := w.hub.metrics.received } with
        | (hub, .ok _) => some { w with hub }
        | (hub, .error f) =>
          some { w with
            hub := { hub with metrics := hub.metrics.failed }
            lines :=
              w.lines.set n { l with reply := .unsent (errorFrame f l.client) }
            complaints := w.complaints + 1 }
      else none
  | .answer n => w.onLine n Line.answer
  | .hangUp n => w.onLine n Line.hangUp
  | .turn n =>
    match w.lines[n]? with
    | none => none
    | some l =>
      if l.visit.stage = .reading ∨ l.visit.stage = .finished then none
      else
        let (hub, visit, _) := l.visit.turn w.hub
        some { w with hub, lines := w.lines.set n { l with visit } }
  | .remove client => some { w with hub := (w.hub.remove client).1 }
  | .closeAll => some { w with hub := w.hub.closeAll.1 }
  | .close n => w.onLine n fun l => some l.close
  | .take n => w.onLine n Line.take
  | .write n ok => w.onLine n (Line.write ok)
  | .stop n => w.onLine n Line.stop
  | .dispatch t =>
    match w.round with
    | some _ => none
    | none =>
      match Dispatch.plan w.hub.registry w.hub.pool t with
      | .nothing => some w
      | .unwritable =>
        some { w with
          hub := { w.hub with metrics := w.hub.metrics.failed },
          complaints := w.complaints + 1 }
      | .offer frame _ =>
        let subscribers := w.hub.registry.subscribers t.symbol
        some { w with
          round :=
            some { current := { frame, subscribers },
                   waiting := subscribers } }
  | .look client =>
    match w.round with
    | none => none
    | some r =>
      if r.hand.isNone && r.waiting.contains client then
        some { w with round := some { r with
          waiting := r.waiting.erase client
          hand := (w.hub.pool.get? client).map fun c => (c.key, .found) } }
      else none
  | .advance =>
    match w.round with
    | none => none
    | some r =>
      match r.hand with
      | none => none
      | some (n, phase) => w.lines[n]?.map fun l => w.advance r n l phase
  | .finish latency =>
    match w.round with
    | none => none
    | some r =>
      if r.hand.isNone && r.waiting.isEmpty then
        some { w with
          hub := { w.hub with metrics := w.hub.metrics.record latency }
          past := w.past ++ [r.current]
          round := none }
      else none
  | .outside limiter feed messages errors =>
    some { w with
      hub := { w.hub with
        limiter, feed
        metrics := { w.hub.metrics with
          messagesReceived := w.hub.metrics.messagesReceived + messages
          errors := w.hub.metrics.errors + errors } }
      complaints := w.complaints + errors }

end Broadcast

namespace Line

variable {l l' : Line}

/-- What was written and what waits are the accepted frames, and the queue has
room for what waits. -/
structure Ordered (l : Line) : Prop where
  frames : l.accepted.map Queued.text =
    l.written ++ l.writing.toList ++
    l.session.queue.map (Websocket.frame .text)
  room : l.session.queue.length ≤ l.session.capacity

/-- What a connection keeps while the dispatcher leaves it alone. -/
structure Quiet (l l' : Line) : Prop where
  conn : l'.visit.conn = l.visit.conn
  ordered : l.Ordered → l'.Ordered
  capacity : l'.session.capacity = l.session.capacity
  isOpen : l'.session.isOpen = true → l.session.isOpen = true
  ticks : l'.ticks = l.ticks
  refused : l'.refused = l.refused
  sent : l'.sent = l.sent
  faults : l'.faults = l.faults

theorem quiet_close (l : Line) : l.Quiet l.close := by
  unfold close Session.close
  split
  · exact ⟨rfl, fun h => ⟨h.frames, h.room⟩, rfl,
      fun h => absurd h Bool.false_ne_true, rfl, rfl, rfl, rfl⟩
  · exact ⟨rfl, fun h => ⟨h.frames, h.room⟩, rfl, id, rfl, rfl, rfl, rfl⟩

/-- Reader and stage do not matter. -/
theorem quiet_of_stage {stage : Stage} {reply : Reply} :
    l.Quiet { l with reply, visit := { l.visit with stage } } :=
  ⟨rfl, fun h => ⟨h.frames, h.room⟩, rfl, id, rfl, rfl, rfl, rfl⟩

/-- A frame that is queued is the newest one that was accepted. -/
theorem Ordered.enqueue (h : l.Ordered) {q : Queued}
    (hroom : l.session.queue.length < l.session.capacity) :
    Ordered { l.withSession { l.session with
      queue := l.session.queue ++ [q.frame] } with accepted :=
        l.accepted ++ [q] } where
  frames := by
    simp only [withSession, session, List.map_append,
      List.map_cons, List.map_nil]
    rw [h.frames, List.append_assoc _ _ [q.text]]
    rfl
  room := by
    simp only [withSession, session, List.length_append, List.length_singleton]
    exact hroom

theorem quiet_answer (h : l.answer = some l') : l.Quiet l' := by
  unfold answer at h
  split at h
  case h_1 => cases h
  case h_2 frame _ =>
    split at h
    · cases h
      exact quiet_of_stage
    · cases h
      exact quiet_of_stage
  case h_3 frame _ =>
    unfold Session.enqueue at h
    by_cases hroom : l.session.queue.length < l.session.capacity
    · rw [if_pos hroom] at h
      cases h
      refine ⟨rfl, fun ho => ⟨(ho.enqueue (q := .notice frame) hroom).frames,
        (ho.enqueue (q := .notice frame) hroom).room⟩, rfl,
        id, ?_, rfl, rfl, rfl⟩
      simp [ticks, Queued.tick?]
    · rw [if_neg hroom] at h
      cases h
      exact quiet_of_stage

theorem quiet_hangUp (h : l.hangUp = some l') : l.Quiet l' := by
  unfold hangUp at h
  split at h
  · cases h
    exact quiet_of_stage
  · cases h

theorem quiet_take (h : l.take = some l') : l.Quiet l' := by
  unfold take at h
  split at h
  · rename_i hready
    simp only [Bool.and_eq_true, Option.isNone_iff_eq_none, Session.canPump]
      at hready
    obtain ⟨⟨-, hwriting⟩, hsome⟩ := hready
    cases h
    cases hqueue : l.session.queue with
    | nil => simp [hqueue] at hsome
    | cons f rest =>
        have hpump :
            l.session.pump .frame =
              ({ l.session with queue := rest }, Websocket.frame .text f) := by
          simp only [Session.pump, hqueue]
        rw [hpump]
        refine ⟨rfl, fun ho => ⟨?_, ?_⟩, rfl, id, rfl, rfl, rfl, rfl⟩
        · have hframes := ho.frames
          rw [hwriting, hqueue] at hframes
          simpa [withSession, session] using hframes
        · have hroom := ho.room
          rw [hqueue, List.length_cons] at hroom
          exact Nat.le_of_succ_le hroom
  · cases h

theorem quiet_write {ok : Bool} (h : l.write ok = some l') : l.Quiet l' := by
  unfold write at h
  cases hwriting : l.writing with
  | none => simp [hwriting] at h
  | some bytes =>
      simp only [hwriting] at h
      split at h
      · cases h
      · split at h
        · cases h
          refine ⟨rfl, fun ho => ⟨?_, ho.room⟩, rfl, id, rfl, rfl, rfl, rfl⟩
          have hframes := ho.frames
          rw [hwriting] at hframes
          simpa [session] using hframes
        · cases h
          refine ⟨rfl, fun ho => ⟨?_, ho.room⟩, rfl, id, rfl, rfl, rfl, rfl⟩
          have hframes := ho.frames
          rw [hwriting] at hframes
          exact hframes

theorem quiet_stop (h : l.stop = some l') : l.Quiet l' := by
  unfold stop at h
  split at h
  · cases h
    exact ⟨rfl, fun ho => ⟨ho.frames, ho.room⟩, rfl, id, rfl, rfl, rfl, rfl⟩
  · cases h

end Line

/-- What a hub keeps while no connection is admitted and no tick is counted:
the pool gains nothing, subscribers stay distinct, and some errors are
counted. -/
structure Calm (errors : Nat) (h h' : Hub) : Prop where
  pool : ∀ c conn, h'.pool.get? c = some conn → h.pool.get? c = some conn
  registry : h.registry.Distinct → h'.registry.Distinct
  sent : h'.metrics.messagesSent = h.metrics.messagesSent
  errors : h'.metrics.errors = h.metrics.errors + errors

namespace Calm

variable {h h' : Hub}

/-- Pool and registry stay as they are. -/
theorem of_metrics {limiter : Limiter} {feed : Feed.Client} {metrics : Metrics}
    {errors : Nat} (hsent : metrics.messagesSent = h.metrics.messagesSent)
    (herrors : metrics.errors = h.metrics.errors + errors) :
    Calm errors h { h with limiter, feed, metrics } :=
  ⟨fun _ _ hstored => hstored, id, hsent, herrors⟩

theorem refl (h : Hub) : Calm 0 h h := of_metrics rfl (Int.add_zero _).symm

/-- The gauge of active connections does not matter. -/
theorem of_pool {pool : Pool} {metrics : Metrics}
    (hpool : ∀ c conn, pool.get? c = some conn → h.pool.get? c = some conn)
    (hmetrics : metrics = h.metrics ∨ metrics = h.metrics.disconnected) :
    Calm 0 h { h with pool, metrics } := by
  rcases hmetrics with rfl | rfl
  · exact ⟨hpool, id, rfl, (Int.add_zero _).symm⟩
  · exact ⟨hpool, id, rfl, (Int.add_zero _).symm⟩

theorem remove (h : Hub) (client : Bytes) : Calm 0 h (h.remove client).1 := by
  refine of_pool (fun c conn hstored => ?_) ?_
  · have hleft : (h.pool.remove client).1.get? c = some conn := hstored
    rw [Pool.get?_remove] at hleft
    split at hleft
    · cases hleft
    · exact hleft
  · split
    · exact Or.inr rfl
    · exact Or.inl rfl

theorem release (h : Hub) (conn : Connection) :
    Calm 0 h (h.release conn).1 := by
  refine of_pool (fun c other hstored => ?_) ?_
  · have hleft : (h.pool.release conn).1.get? c = some other := hstored
    rw [Pool.get?_release] at hleft
    split at hleft
    · cases hleft
    · exact hleft
  · split
    · exact Or.inr rfl
    · exact Or.inl rfl

theorem closeAll (h : Hub) : Calm 0 h h.closeAll.1 := by
  have hgauge : ∀ (cs : List Connection) (m : Metrics),
      (cs.foldl (fun m _ => m.disconnected) m).messagesSent = m.messagesSent ∧
      (cs.foldl (fun m _ => m.disconnected) m).errors = m.errors := by
    intro cs
    induction cs with
    | nil => exact fun m => ⟨rfl, rfl⟩
    | cons c cs ih => exact fun m => ih m.disconnected
  refine ⟨fun c conn hstored => ?_, id, (hgauge _ _).1, ?_⟩
  · have hnone := Pool.get?_clear h.pool c
    rw [show h.closeAll.1.pool = h.pool.clear.1 from rfl, hnone] at hstored
    cases hstored
  · exact (hgauge _ _).2.trans (Int.add_zero _).symm

theorem subscribe (h : Hub) (client symbol : Bytes) :
    Calm 0 h (h.subscribe client symbol).1 := by
  obtain ⟨feed, hframe⟩ := h.subscribe_frame client symbol
  rw [hframe]
  split
  · exact refl h
  · exact ⟨fun _ _ hstored => hstored, Registry.Distinct.join, rfl,
      (Int.add_zero _).symm⟩

theorem unsubscribe (h : Hub) (client symbol : Bytes) :
    Calm 0 h (h.unsubscribe client symbol).1 := by
  obtain ⟨feed, hframe⟩ := h.unsubscribe_frame client symbol
  rw [hframe]
  split
  · exact refl h
  · exact ⟨fun _ _ hstored => hstored, Registry.Distinct.leave, rfl,
      (Int.add_zero _).symm⟩

theorem unsubscribeAll (h : Hub) (client : Bytes) :
    Calm 0 h (h.unsubscribeAll client).1 := by
  obtain ⟨feed, hframe⟩ := h.unsubscribeAll_frame client
  rw [hframe]
  exact ⟨fun _ _ hstored => hstored, Registry.Distinct.leaveAll, rfl,
    (Int.add_zero _).symm⟩

theorem act (client payload : Bytes) (h : Hub) :
    Calm 0 h (Visit.act client payload h).1 := by
  unfold Visit.act
  split
  · rename_i command _
    cases command with
    | subscribe symbol => exact subscribe h client symbol
    | unsubscribe symbol => exact unsubscribe h client symbol
  · exact refl h

/-- One more error, which may be counted before or after. -/
theorem failed (hcalm : Calm 0 { h with metrics := h.metrics.received } h') :
    Calm 1 h { h' with metrics := h'.metrics.failed } :=
  ⟨hcalm.pool, hcalm.registry,
    hcalm.sent, by simpa [Metrics.failed, Metrics.received] using hcalm.errors⟩

theorem turn (h : Hub) (v : Visit) : Calm 0 h (v.turn h).1 := by
  unfold Visit.turn
  split
  · exact refl h
  · exact refl h
  · exact release h v.conn
  · exact refl h
  · rename_i replaced _
    cases replaced with
    | true => exact refl h
    | false => exact unsubscribeAll h v.client
  · exact refl h

end Calm

/-- A visit that reads no more changes its session only by closing it. -/
theorem Line.quiet_turn (l : Line) (h : Hub) :
    l.Quiet { l with visit := (l.visit.turn h).2.1 } := by
  unfold Visit.turn
  split
  · exact quiet_of_stage
  · exact quiet_of_stage
  · exact quiet_of_stage
  · exact quiet_of_stage
  · rename_i replaced _
    cases replaced with
    | true => exact quiet_of_stage
    | false => exact quiet_of_stage
  · have hclose := l.quiet_close
    exact ⟨hclose.conn,
      fun ho => ⟨(hclose.ordered ho).frames, (hclose.ordered ho).room⟩,
      hclose.capacity, hclose.isOpen, hclose.ticks, hclose.refused,
      hclose.sent, hclose.faults⟩

namespace Broadcast

/-- What an event does. -/
inductive Move (queueSize : Int64) (w : Broadcast) : Broadcast → Prop
  | hub {hub : Hub} {k : Nat} (hcalm : Calm k w.hub hub) :
      Move queueSize w { w with hub, complaints := w.complaints + k }
  | quiet {hub : Hub} {k n : Nat} {l l' : Line} (hl : w.lines[n]? = some l)
      (hquiet : l.Quiet l') (hcalm : Calm k w.hub hub) :
      Move queueSize w { w with
        hub, lines := w.lines.set n l', complaints := w.complaints + k }
  | admitted {limiter : Limiter} {metrics : Metrics} {client : Bytes}
      {session : Session}
      (hsession : Session.create? client queueSize = some session)
      (hsent : metrics.messagesSent = w.hub.metrics.messagesSent)
      (herrors : metrics.errors = w.hub.metrics.errors) :
      Move queueSize w { w with
        hub := { w.hub with
          limiter, metrics,
          pool := (w.hub.pool.insert client ⟨w.lines.length, client⟩).1 }
        lines := w.lines ++
          [{ visit := { conn := ⟨w.lines.length, client⟩, session } }] }
  | started {frame symbol : Bytes} (hround : w.round = none) :
      Move queueSize w { w with round := some {
        current := { frame, subscribers := w.hub.registry.subscribers symbol }
        waiting := w.hub.registry.subscribers symbol } }
  | looked {r : Round} {client : Bytes} (hround : w.round = some r)
      (hhand : r.hand = none) (hclient : client ∈ r.waiting) :
      Move queueSize w { w with round := some { r with
        waiting := r.waiting.erase client
        hand := (w.hub.pool.get? client).map fun c => (c.key, .found) } }
  | advanced {r : Round} {n : Nat} {phase : Phase} {l : Line}
      (hround : w.round = some r) (hhand : r.hand = some (n, phase))
      (hl : w.lines[n]? = some l) : Move queueSize w (w.advance r n l phase)
  | finished {r : Round} {latency : Binary64} (hround : w.round = some r)
      (hhand : r.hand = none) (hwaiting : r.waiting = []) :
      Move queueSize w { w with
        hub := { w.hub with metrics := w.hub.metrics.record latency }
        past := w.past ++ [r.current]
        round := none }

variable {queueSize : Int64} {w w' : Broadcast}

theorem move_of_onLine {n : Nat} {f : Line → Option Line}
    (hf : ∀ l l', f l = some l' → l.Quiet l') (h : w.onLine n f = some w') :
    Move queueSize w w' := by
  unfold onLine at h
  obtain ⟨l, hl, hline⟩ := Option.bind_eq_some_iff.mp h
  obtain ⟨l', hl', rfl⟩ := Option.map_eq_some_iff.mp hline
  exact .quiet hl (hf l l' hl') (Calm.refl w.hub)

section Cases

/-- A connection is refused, or it is stored and comes last. -/
theorem arrive_cases {now : Instant} {client : Bytes}
    (h : w.step queueSize (.arrive now client) = some w') :
    ∃ session, Session.create? client queueSize = some session ∧
      ((∃ limiter, w' = { w with
          hub := { w.hub with limiter, metrics := w.hub.metrics.failed }
          complaints := w.complaints + 1 }) ∨
        ∃ limiter metrics, metrics.messagesSent = w.hub.metrics.messagesSent ∧
          metrics.errors = w.hub.metrics.errors ∧ w' = { w with
            hub := { w.hub with
              limiter, metrics,
              pool := (w.hub.pool.insert client ⟨w.lines.length, client⟩).1 }
            lines := w.lines ++
              [{ visit := { conn := ⟨w.lines.length, client⟩, session } }] }) := by
  unfold step at h
  dsimp only at h
  cases hsession : Session.create? client queueSize with
  | none => simp [hsession] at h
  | some session =>
      simp only [hsession] at h
      unfold Visit.admission Hub.connect at h
      refine ⟨session, rfl, ?_⟩
      cases hask : w.hub.limiter.ask now client with
      | mk limiter granted =>
          simp only [hask] at h
          cases granted with
          | false =>
              cases h
              exact .inl ⟨limiter, rfl⟩
          | true =>
              cases h
              refine .inr ⟨limiter, _, ?_, ?_, rfl⟩
              · split <;> rfl
              · split <;> rfl

theorem turn_cases {n : Nat} (h : w.step queueSize (.turn n) = some w') :
    ∃ l, w.lines[n]? = some l ∧ l.visit.stage ≠ .reading ∧ w' = { w with
      hub := (l.visit.turn w.hub).1
      lines :=
        w.lines.set n { l with visit := (l.visit.turn w.hub).2.1 } } := by
  cases hl : w.lines[n]? with
  | none => simp [step, hl] at h
  | some l =>
      simp only [step, hl] at h
      split at h
      · cases h
      · rename_i hstage
        cases h
        exact ⟨l, rfl, fun hreading => hstage (.inl hreading), rfl⟩

theorem dispatch_cases {t : Tick}
    (h : w.step queueSize (.dispatch t) = some w') :
    w.round = none ∧
      (w' = w ∨
        w' = { w with
          hub := { w.hub with metrics := w.hub.metrics.failed },
          complaints := w.complaints + 1 } ∨
        ∃ frame, w' = { w with round := some {
          current :=
            { frame, subscribers := w.hub.registry.subscribers t.symbol }
          waiting := w.hub.registry.subscribers t.symbol } }) := by
  cases hround : w.round with
  | some r => simp [step, hround] at h
  | none =>
      simp only [step, hround] at h
      split at h
      · cases h
        exact ⟨rfl, .inl rfl⟩
      · cases h
        exact ⟨rfl, .inr (.inl rfl)⟩
      · rename_i frame targets hplan
        cases h
        exact ⟨rfl, .inr (.inr ⟨frame, rfl⟩)⟩

theorem look_cases {client : Bytes}
    (h : w.step queueSize (.look client) = some w') :
    ∃ r, w.round = some r ∧ r.hand = none ∧ client ∈ r.waiting ∧
      w' = { w with round := some { r with
        waiting := r.waiting.erase client
        hand := (w.hub.pool.get? client).map fun c => (c.key, .found) } } := by
  cases hround : w.round with
  | none => simp [step, hround] at h
  | some r =>
      simp only [step, hround] at h
      split at h
      · rename_i hready
        simp only [Bool.and_eq_true, Option.isNone_iff_eq_none,
          List.contains_iff_mem] at hready
        cases h
        exact ⟨r, rfl, hready.1, hready.2, rfl⟩
      · cases h

theorem advance_cases (h : w.step queueSize .advance = some w') :
    ∃ r n phase l, w.round = some r ∧ r.hand = some (n, phase) ∧
      w.lines[n]? = some l ∧
        w' = w.advance r n l phase := by
  cases hround : w.round with
  | none => simp [step, hround] at h
  | some r =>
      simp only [step, hround] at h
      split at h
      · cases h
      · rename_i n phase hhand
        obtain ⟨l, hl, rfl⟩ := Option.map_eq_some_iff.mp h
        exact ⟨r, n, phase, l, rfl, hhand, hl, rfl⟩

theorem finish_cases {latency : Binary64}
    (h : w.step queueSize (.finish latency) = some w') :
    ∃ r, w.round = some r ∧ r.hand = none ∧ r.waiting = [] ∧ w' = { w with
      hub := { w.hub with metrics := w.hub.metrics.record latency }
      past := w.past ++ [r.current]
      round := none } := by
  cases hround : w.round with
  | none => simp [step, hround] at h
  | some r =>
      simp only [step, hround] at h
      split at h
      · rename_i hready
        simp only [Bool.and_eq_true, Option.isNone_iff_eq_none,
          List.isEmpty_iff] at hready
        cases h
        exact ⟨r, rfl, hready.1, hready.2, rfl⟩
      · cases h

end Cases

theorem move_of_read {n : Nat} {payload : Bytes}
    (h : w.step queueSize (.read n payload) = some w') :
    Move queueSize w w' := by
  cases hl : w.lines[n]? with
  | none => simp [step, hl] at h
  | some l =>
      simp only [step, hl] at h
      split at h
      · have hcalm :=
          Calm.act l.client payload { w.hub with
            metrics := w.hub.metrics.received }
        split at h
        · rename_i hub calls hact
          rw [hact] at hcalm
          cases h
          exact .hub ⟨hcalm.pool, hcalm.registry, hcalm.sent, hcalm.errors⟩
        · rename_i hub f hact
          rw [hact] at hcalm
          cases h
          exact .quiet hl Line.quiet_of_stage hcalm.failed
      · cases h

theorem move_of_step {e : Event} (h : w.step queueSize e = some w') :
    Move queueSize w w' := by
  cases e with
  | arrive now client =>
      obtain ⟨session, hsession, ⟨limiter, rfl⟩ |
        ⟨limiter, metrics, hsent, herrors, rfl⟩⟩ := arrive_cases h
      · exact .hub (Calm.of_metrics rfl rfl)
      · exact .admitted hsession hsent herrors
  | read n payload => exact move_of_read h
  | answer n => exact move_of_onLine (fun _ _ => Line.quiet_answer) h
  | hangUp n => exact move_of_onLine (fun _ _ => Line.quiet_hangUp) h
  | turn n =>
      obtain ⟨l, hl, -, rfl⟩ := turn_cases h
      exact .quiet hl (l.quiet_turn w.hub) (Calm.turn w.hub l.visit)
  | remove client =>
      cases h
      exact .hub (Calm.remove w.hub client)
  | closeAll =>
      cases h
      exact .hub (Calm.closeAll w.hub)
  | close n =>
      refine move_of_onLine (fun l l' hl' => ?_) h
      cases hl'
      exact l.quiet_close
  | take n => exact move_of_onLine (fun _ _ => Line.quiet_take) h
  | write n ok => exact move_of_onLine (fun _ _ => Line.quiet_write) h
  | stop n => exact move_of_onLine (fun _ _ => Line.quiet_stop) h
  | dispatch t =>
      obtain ⟨hround, rfl | rfl | ⟨frame, rfl⟩⟩ := dispatch_cases h
      · exact .hub (Calm.refl _)
      · exact .hub (Calm.of_metrics rfl rfl)
      · exact .started hround
  | look client =>
      obtain ⟨r, hround, hhand, hclient, rfl⟩ := look_cases h
      exact .looked hround hhand hclient
  | advance =>
      obtain ⟨r, n, phase, l, hround, hhand, hl, rfl⟩ := advance_cases h
      exact .advanced hround hhand hl
  | finish latency =>
      obtain ⟨r, hround, hhand, hwaiting, rfl⟩ := finish_cases h
      exact .finished hround hhand hwaiting
  | outside limiter feed messages errors =>
      cases h
      exact .hub (Calm.of_metrics rfl rfl)

end Broadcast

end Server
end TickRelay
