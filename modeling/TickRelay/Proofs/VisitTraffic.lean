import TickRelay.Server.Visit
import TickRelay.Proofs.HubView
import TickRelay.Proofs.RegistryView
import TickRelay.Proofs.Runs

/-!
# Visits side by side

Any number of visits go on at the same time, several of one client among them.
Each goes from its admission over the messages it reads to the steps of
its end; the pool may also lose connections at any time, because one is removed
or all are closed.

**Algorithm.** `Lobby.step` is one event. A visit is admitted by
`Visit.admission`, a message is carried out by `Visit.receive`, and the steps
after reading has ended are those of `Visit.turn`. What neither pool nor
subscribers depend on may change in any way at any time: the limiter, the
counters, the feed, and the queue and socket of a session. So a connection that
was displaced may go on reading for a while, and calls of the provider may come
whenever they like.

**Results.** `move_of_step` lists what an event does to the pool, to the
subscribers and to the stages of the visits. `stored_of_move`: only an
admission brings a connection into the pool.
-/

namespace TickRelay
namespace Server

/-- The hub and the admitted visits. The key of a connection is the place of
its visit. -/
structure Lobby where
  hub : Hub
  visits : List Visit := []

namespace Lobby

/-- What can happen. -/
inductive Event where
  /-- A connection of a client asks for admission. -/
  | arrive (now : Instant) (client : Bytes) (session : Session)
  /-- A visit reads a message. -/
  | receive (n : Nat) (payload : Bytes)
  /-- A visit can read no more. -/
  | hangUp (n : Nat)
  /-- The next step of a visit that reads no more. -/
  | turn (n : Nat)
  /-- The connection of a client is removed from the pool. -/
  | remove (client : Bytes)
  /-- All connections are removed from the pool. -/
  | closeAll
  /-- The session of a visit changes: frames are queued or written, the socket
  is closed. -/
  | session (n : Nat) (session : Session)
  /-- Limiter, counters and feed change. -/
  | outside (limiter : Limiter) (metrics : Metrics) (feed : Feed.Client)

/-- A hub without connections and subscribers, and no visits. -/
def start (limiter : Limiter) (feed : Feed.Client) (releaseOnIdle : Bool) :
    Lobby :=
  { hub := { limiter, feed, releaseOnIdle } }

/-- One event. -/
def step (w : Lobby) : Event → Option Lobby
  | .arrive now client session =>
    match Visit.admission now ⟨w.visits.length, client⟩ session w.hub with
    | (hub, .admitted v _) => some { hub, visits := w.visits ++ [v] }
    | (hub, .refused _) => some { w with hub }
  | .receive n payload =>
    match w.visits[n]? with
    | none => none
    | some v =>
      if v.stage = .reading then
        let (hub, v, _) := v.receive payload w.hub
        some { hub, visits := w.visits.set n v }
      else none
  | .hangUp n =>
    match w.visits[n]? with
    | none => none
    | some v =>
      if v.stage = .reading then some { w with
        visits := w.visits.set n v.endReading } else none
  | .turn n =>
    match w.visits[n]? with
    | none => none
    | some v =>
      if v.stage = .reading ∨ v.stage = .finished then none
      else
        let (hub, v, _) := v.turn w.hub
        some { hub, visits := w.visits.set n v }
  | .remove client => some { w with hub := (w.hub.remove client).1 }
  | .closeAll => some { w with hub := w.hub.closeAll.1 }
  | .session n session =>
    match w.visits[n]? with
    | none => none
    | some v => some { w with visits := w.visits.set n { v with session } }
  | .outside limiter metrics feed =>
      some { w with hub := { w.hub with limiter, metrics, feed } }

/-- The stored connection of a client. -/
def stored (w : Lobby) (client : Bytes) : Option Connection :=
  w.hub.pool.get? client

/-- Whether a client is a subscriber of a symbol in normal form. -/
def Subscribed (w : Lobby) (client symbol : Bytes) : Prop :=
  client ∈ w.hub.registry.clients symbol

/-- What an event does to pool, subscribers and visits. -/
inductive Move (w w' : Lobby) : Event → Prop
  | refused {now : Instant} {client : Bytes} {session : Session}
      (hpool : w'.hub.pool = w.hub.pool)
      (hregistry : w'.hub.registry = w.hub.registry)
      (hvisits : w'.visits = w.visits) : Move w w' (.arrive now client session)
  | admitted {now : Instant} {client : Bytes} {session : Session} {v : Visit}
      (hconn : v.conn = ⟨w.visits.length, client⟩)
      (hstage : v.stage = .reading)
      (hpool : w'.hub.pool = (w.hub.pool.insert client v.conn).1)
      (hregistry : w'.hub.registry = w.hub.registry)
      (hvisits : w'.visits = w.visits ++ [v]) :
      Move w w' (.arrive now client session)
  | received {n : Nat} {payload : Bytes} {v v' : Visit}
      (hv : w.visits[n]? = some v) (hstage : v.stage = .reading)
      (hconn : v'.conn = v.conn)
      (hstage' : v'.stage = .reading ∨ v'.stage = .leaving)
      (hpool : w'.hub.pool = w.hub.pool)
      (hothers : ∀ c s, c ≠ v.client → (w'.Subscribed c s ↔ w.Subscribed c s))
      (hvisits : w'.visits = w.visits.set n v') :
      Move w w' (.receive n payload)
  | hungUp {n : Nat} {v : Visit} (hv : w.visits[n]? = some v)
      (hstage : v.stage = .reading) (hpool : w'.hub.pool = w.hub.pool)
      (hregistry : w'.hub.registry = w.hub.registry)
      (hvisits : w'.visits = w.visits.set n { v with stage := .leaving }) :
      Move w w' (.hangUp n)
  | released {n : Nat} {v : Visit} (hv : w.visits[n]? = some v)
      (hstage : v.stage = .leaving)
      (hpool : w'.hub.pool = (w.hub.pool.release v.conn).1)
      (hregistry : w'.hub.registry = w.hub.registry)
      (hvisits : w'.visits = w.visits.set n { v with stage := .released }) :
      Move w w' (.turn n)
  | looked {n : Nat} {v : Visit} (hv : w.visits[n]? = some v)
      (hstage : v.stage = .released) (hpool : w'.hub.pool = w.hub.pool)
      (hregistry : w'.hub.registry = w.hub.registry)
      (hvisits : w'.visits = w.visits.set n { v with
        stage := .looked (w.stored v.client).isSome }) : Move w w' (.turn n)
  | left {n : Nat} {v : Visit} (hv : w.visits[n]? = some v)
      (hstage : v.stage = .looked true) (hpool : w'.hub.pool = w.hub.pool)
      (hregistry : w'.hub.registry = w.hub.registry)
      (hvisits : w'.visits = w.visits.set n { v with stage := .withdrawn }) :
      Move w w' (.turn n)
  | withdrawn {n : Nat} {v : Visit} (hv : w.visits[n]? = some v)
      (hstage : v.stage = .looked false) (hpool : w'.hub.pool = w.hub.pool)
      (hregistry : w'.hub.registry = (w.hub.registry.leaveAll v.client).1)
      (hvisits : w'.visits = w.visits.set n { v with stage := .withdrawn }) :
      Move w w' (.turn n)
  | finished {n : Nat} {v v' : Visit} (hv : w.visits[n]? = some v)
      (hstage : v.stage = .withdrawn) (hconn : v'.conn = v.conn)
      (hstage' : v'.stage = .finished) (hpool : w'.hub.pool = w.hub.pool)
      (hregistry : w'.hub.registry = w.hub.registry)
      (hvisits : w'.visits = w.visits.set n v') : Move w w' (.turn n)
  | removed {client : Bytes}
      (hpool : w'.hub.pool = (w.hub.pool.remove client).1)
      (hregistry : w'.hub.registry = w.hub.registry)
      (hvisits : w'.visits = w.visits) : Move w w' (.remove client)
  | closed (hpool : w'.hub.pool = w.hub.pool.clear.1)
      (hregistry : w'.hub.registry = w.hub.registry)
      (hvisits : w'.visits = w.visits) : Move w w' .closeAll
  | session {n : Nat} {session : Session} {v : Visit}
      (hv : w.visits[n]? = some v) (hpool : w'.hub.pool = w.hub.pool)
      (hregistry : w'.hub.registry = w.hub.registry)
      (hvisits : w'.visits = w.visits.set n { v with session }) :
      Move w w' (.session n session)
  | outside {limiter : Limiter} {metrics : Metrics} {feed : Feed.Client}
      (hpool : w'.hub.pool = w.hub.pool)
      (hregistry : w'.hub.registry = w.hub.registry)
      (hvisits : w'.visits = w.visits) :
      Move w w' (.outside limiter metrics feed)

end Lobby

namespace Visit

theorem obey_spec (client : Bytes) (h : Hub) (command : Command) :
    (obey client h command).1.pool = h.pool ∧
    ∀ c s, c ≠ client →
      (c ∈ (obey client h command).1.registry.clients s ↔
          c ∈ h.registry.clients s) := by
  cases command with
  | subscribe symbol =>
      obtain ⟨feed, hframe⟩ := h.subscribe_frame client symbol
      have heq : (obey client h (.subscribe symbol)).1 = _ := hframe
      rw [heq]
      split
      · exact ⟨rfl, fun _ _ _ => Iff.rfl⟩
      · refine ⟨rfl, fun c s hc => ?_⟩
        rw [Registry.mem_clients_join]
        exact or_iff_right fun hboth => hc hboth.2
  | unsubscribe symbol =>
      obtain ⟨feed, hframe⟩ := h.unsubscribe_frame client symbol
      have heq : (obey client h (.unsubscribe symbol)).1 = _ := hframe
      rw [heq]
      split
      · exact ⟨rfl, fun _ _ _ => Iff.rfl⟩
      · refine ⟨rfl, fun c s hc => ?_⟩
        rw [Registry.mem_clients_leave]
        exact and_iff_left fun hboth => hc hboth.2

theorem act_spec (client payload : Bytes) (h : Hub) :
    (act client payload h).1.pool = h.pool ∧
    ∀ c s, c ≠ client →
      (c ∈ (act client payload h).1.registry.clients s ↔
          c ∈ h.registry.clients s) := by
  unfold act
  split
  · exact obey_spec client h _
  · exact ⟨rfl, fun _ _ _ => Iff.rfl⟩

theorem complain_spec (f : Fault) (v : Visit) (hv : v.stage = .reading) :
    (v.complain f).conn = v.conn ∧
    ((v.complain f).stage = .reading ∨ (v.complain f).stage = .leaving) := by
  unfold complain
  split
  · exact ⟨rfl, Or.inl hv⟩
  · exact ⟨rfl, Or.inr rfl⟩

/-- What a message changes: subscriptions of its own client, and perhaps
reading ends. -/
theorem receive_spec (payload : Bytes) (h : Hub) (v : Visit)
    (hv : v.stage = .reading) :
    (v.receive payload h).1.pool = h.pool ∧
    (∀ c s, c ≠ v.client →
      (c ∈ (v.receive payload h).1.registry.clients s ↔
          c ∈ h.registry.clients s)) ∧
    (v.receive payload h).2.1.conn = v.conn ∧
    ((v.receive payload h).2.1.stage = .reading ∨
        (v.receive payload h).2.1.stage = .leaving) := by
  obtain ⟨hpool, hothers⟩ :=
    act_spec v.client payload { h with metrics := h.metrics.received }
  unfold receive
  split
  case h_1 k calls heq =>
    rw [heq] at hpool hothers
    exact ⟨hpool, hothers, rfl, Or.inl hv⟩
  case h_2 k f heq =>
    rw [heq] at hpool hothers
    obtain ⟨hconn, hstage⟩ := complain_spec f v hv
    exact ⟨hpool, hothers, hconn, hstage⟩

end Visit

namespace Lobby

theorem move_of_arrive {w w' : Lobby} {now : Instant} {client : Bytes}
    {session : Session} (h : w.step (.arrive now client session) = some w') :
    Move w w' (.arrive now client session) := by
  unfold step Visit.admission Hub.connect at h
  dsimp only at h
  cases hask : w.hub.limiter.ask now client with
  | mk limiter granted =>
      rw [hask] at h
      cases granted with
      | false =>
          cases h
          exact .refused rfl rfl rfl
      | true =>
          cases h
          exact .admitted rfl rfl rfl rfl rfl

theorem move_of_receive {w w' : Lobby} {n : Nat} {payload : Bytes}
    (h : w.step (.receive n payload) = some w') :
    Move w w' (.receive n payload) := by
  cases hv : w.visits[n]? with
  | none => simp [step, hv] at h
  | some v =>
      by_cases hstage : v.stage = .reading
      · simp only [step, hv, hstage, if_true] at h
        cases h
        obtain ⟨hpool, hothers, hconn, hstage'⟩ :=
          Visit.receive_spec payload w.hub v hstage
        exact .received hv hstage hconn hstage' hpool hothers rfl
      · simp [step, hv, hstage] at h

theorem move_of_turn {w w' : Lobby} {n : Nat}
    (h : w.step (.turn n) = some w') : Move w w' (.turn n) := by
  cases hv : w.visits[n]? with
  | none => simp [step, hv] at h
  | some v =>
      cases hstage : v.stage with
      | reading => simp [step, hv, hstage] at h
      | finished => simp [step, hv, hstage] at h
      | leaving =>
          simp only [step, hv, hstage, Visit.turn] at h
          cases h
          exact .released hv hstage rfl rfl rfl
      | released =>
          simp only [step, hv, hstage, Visit.turn] at h
          cases h
          exact .looked hv hstage rfl rfl rfl
      | looked replaced =>
          simp only [step, hv, hstage, Visit.turn] at h
          cases replaced with
          | true =>
              cases h
              exact .left hv hstage rfl rfl rfl
          | false =>
              obtain ⟨feed, hframe⟩ := w.hub.unsubscribeAll_frame v.client
              have hpool := congrArg Hub.pool hframe
              have hregistry := congrArg Hub.registry hframe
              cases h
              exact .withdrawn hv hstage hpool hregistry rfl
      | withdrawn =>
          simp only [step, hv, hstage, Visit.turn] at h
          have hconn : v.finish.conn = v.conn := rfl
          cases h
          exact .finished hv hstage hconn rfl rfl rfl rfl

theorem move_of_step {w w' : Lobby} {e : Event} (h : w.step e = some w') :
    Move w w' e := by
  cases e with
  | arrive now client session => exact move_of_arrive h
  | receive n payload => exact move_of_receive h
  | hangUp n =>
      cases hv : w.visits[n]? with
      | none => simp [step, hv] at h
      | some v =>
          by_cases hstage : v.stage = .reading
          · simp only [step, hv, hstage, if_true] at h
            cases h
            exact .hungUp hv hstage rfl rfl rfl
          · simp [step, hv, hstage] at h
  | turn n => exact move_of_turn h
  | remove client =>
      cases h
      exact .removed rfl rfl rfl
  | closeAll =>
      cases h
      exact .closed rfl rfl rfl
  | session n session =>
      cases hv : w.visits[n]? with
      | none => simp [step, hv] at h
      | some v =>
          simp only [step, hv] at h
          cases h
          exact .session hv rfl rfl rfl
  | outside limiter metrics feed =>
      cases h
      exact .outside rfl rfl rfl

theorem visits_set {w w' : Lobby} {n : Nat} {v v' : Visit}
    (hv : w.visits[n]? = some v) (hvisits : w'.visits = w.visits.set n v')
    (m : Nat) : w'.visits[m]? = if n = m then some v' else w.visits[m]? := by
  have hlt : n < w.visits.length := (List.getElem?_eq_some_iff.mp hv).1
  rw [hvisits, List.getElem?_set, if_pos hlt]

/-- What is stored after an event was stored before, or is the connection that
was admitted. -/
theorem stored_of_move {w w' : Lobby} {e : Event} (hmove : Move w w' e)
    {c : Bytes} {conn : Connection} (hafter : w'.stored c = some conn) :
    w.stored c = some conn ∨
      (∃ now session, e = .arrive now c session) ∧
      conn = ⟨w.visits.length, c⟩ := by
  unfold stored at hafter ⊢
  cases hmove with
  | refused hpool => exact Or.inl (hpool ▸ hafter)
  | @admitted now client session v hconn _ hpool =>
      rw [hpool, Pool.get?_insert] at hafter
      split at hafter
      case isTrue hc =>
        cases hafter
        subst hc
        exact Or.inr ⟨⟨now, session, rfl⟩, hconn⟩
      case isFalse => exact Or.inl hafter
  | received _ _ _ _ hpool => exact Or.inl (hpool ▸ hafter)
  | hungUp _ _ hpool => exact Or.inl (hpool ▸ hafter)
  | released _ _ hpool =>
      rw [hpool, Pool.get?_release] at hafter
      split at hafter
      · cases hafter
      · exact Or.inl hafter
  | looked _ _ hpool => exact Or.inl (hpool ▸ hafter)
  | left _ _ hpool => exact Or.inl (hpool ▸ hafter)
  | withdrawn _ _ hpool => exact Or.inl (hpool ▸ hafter)
  | finished _ _ _ _ hpool => exact Or.inl (hpool ▸ hafter)
  | removed hpool =>
      rw [hpool, Pool.get?_remove] at hafter
      split at hafter
      · cases hafter
      · exact Or.inl hafter
  | closed hpool =>
      rw [hpool, Pool.get?_clear] at hafter
      cases hafter
  | session _ hpool => exact Or.inl (hpool ▸ hafter)
  | outside hpool => exact Or.inl (hpool ▸ hafter)

end Lobby
end Server
end TickRelay
