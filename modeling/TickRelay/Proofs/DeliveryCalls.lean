import TickRelay.Proofs.DeliveryOrder

/-!
# Operations that nobody interrupts

The steps of readers and dispatcher belong to operations of visit and hub. When
nobody else takes a turn between the steps of an operation, they do together
what the operation does.

**Results.** `run_receive`: a message that is read and answered is
`Visit.receive`. `run_dispatch`: a round is `Hub.dispatch`, where every
connection answers as its session does, and a session without room is closed.
-/

namespace TickRelay

/-- What one offer does to the counters. -/
def Metrics.offered (m : Metrics) : Option SendError → Metrics
  | none => m.sent
  | some .full => m.failed
  | some .closed => m

/-- The counters after some offers, one after the other. -/
theorem Dispatch.Report.foldl_offered (report : Dispatch.Report)
    (m : Metrics) :
    report.foldl (fun m o => m.offered o.2) m =
      (m.sent report.delivered.length).failed report.slow.length := by
  induction report generalizing m with
  | nil =>
      simp [Dispatch.Report.delivered, Dispatch.Report.slow,
        Metrics.sent, Metrics.failed]
  | cons o report ih =>
      obtain ⟨c, e⟩ := o
      rw [List.foldl_cons, ih]
      rcases e with _ | _ | _
      all_goals
        simp [Dispatch.Report.delivered, Dispatch.Report.slow, Metrics.offered,
          Metrics.sent, Metrics.failed]
      all_goals omega

/-- The counters of a report are those of its offers, one after the other. -/
theorem Dispatch.Report.count_eq (report : Dispatch.Report)
    (latency : Binary64) (m : Metrics) :
    report.count latency m =
      (report.foldl (fun m o => m.offered o.2) m).record latency := by
  rw [foldl_offered]
  rfl

namespace Session

/-- A session after it was offered a tick: without room it is closed. -/
def offered (s : Session) (frame : Bytes) : Session :=
  match s.send frame with
  | (s, some .full) => s.close
  | (s, _) => s

theorem offered_of_closed {s : Session} (frame : Bytes)
    (h : s.isOpen = false) :
    s.send frame = (s, some .closed) ∧ s.offered frame = s := by
  have hsend : s.send frame = (s, some .closed) := by simp [send_eq, h]
  exact ⟨hsend, by simp [offered, hsend]⟩

theorem offered_of_room {s : Session} (frame : Bytes) (h : s.isOpen = true)
    (hroom : s.queue.length < s.capacity) :
    s.send frame = ({ s with queue := s.queue ++ [frame] }, none) ∧
      s.offered frame = { s with queue := s.queue ++ [frame] } := by
  have hsend :
      s.send frame = ({ s with queue := s.queue ++ [frame] }, none) := by
    simp [send_eq, h, enqueue, hroom]
  exact ⟨hsend, by simp [offered, hsend]⟩

theorem offered_of_full {s : Session} (frame : Bytes) (h : s.isOpen = true)
    (hroom : ¬s.queue.length < s.capacity) :
    s.send frame = (s, some .full) ∧ s.offered frame = s.close := by
  have hsend : s.send frame = (s, some .full) := by
    simp [send_eq, h, enqueue, hroom]
  exact ⟨hsend, by simp [offered, hsend]⟩

end Session

namespace Server
namespace Broadcast

variable {queueSize : Int64} {w w' : Broadcast} {n : Nat} {l : Line}

theorem onLine_eq {f : Line → Option Line} {l' : Line}
    (hl : w.lines[n]? = some l) (hf : f l = some l') :
    w.onLine n f = some { w with lines := w.lines.set n l' } := by
  simp [onLine, hl, hf]

theorem lines_set_self (hl : w.lines[n]? = some l) (l' : Line) :
    (w.lines.set n l')[n]? = some l' := by
  rw [lines_set hl, if_pos rfl]

/-- The reader of a connection offers an error frame without interruption. -/
theorem run_answer (queueSize : Int64) {f : Fault} (hl : w.lines[n]? = some l)
    (hreply : l.reply = .unsent (errorFrame f l.client)) :
    ∃ (answers : List Event) (l' : Line), (∀ e ∈ answers, e = .answer n) ∧
      Runs.run (step queueSize) w answers = some { w with
        lines := w.lines.set n l' } ∧
      l'.visit = l.visit.complain f ∧ l'.reply = .nothing := by
  have hcomplain : ∀ {session : Session} {e : Option SendError},
      l.session.send (errorFrame f l.client) = (session, e) →
      l.visit.complain f = { l.visit with
        session, stage := if e = none then l.visit.stage else .leaving } := by
    intro session e hsend
    have hsend' :
        l.visit.session.send (errorFrame f l.visit.client) = (session, e) :=
      hsend
    unfold Visit.complain
    rw [hsend']
    cases e <;> rfl
  cases hopen : l.session.isOpen with
  | false =>
      obtain ⟨hsend, -⟩ :=
        Session.offered_of_closed (errorFrame f l.client) hopen
      have hanswer : l.answer = some { l with
          reply := .nothing, visit := l.visit.endReading } := by
        simp [Line.answer, hreply, hopen]
      exact ⟨[.answer n], _, by simp,
        Runs.run_cons.mpr ⟨_, onLine_eq hl hanswer, rfl⟩,
        (hcomplain hsend).symm, rfl⟩
  | true =>
      have hask : l.answer = some { l with
          reply := .asked (errorFrame f l.client) } := by
        simp [Line.answer, hreply, hopen]
      -- the session stays open for the reader, so it asks and then queues
      have hboth : ∀ l', Line.answer { l with
          reply := .asked (errorFrame f l.client) } = some l' →
          Runs.run (step queueSize) w [.answer n, .answer n] = some { w with
            lines := w.lines.set n l' } := by
        intro l' hl'
        refine Runs.run_cons.mpr
          ⟨_, onLine_eq hl hask, Runs.run_cons.mpr ⟨_, ?_, rfl⟩⟩
        have hsecond := onLine_eq (w := { w with
          lines :=
            w.lines.set n { l with reply := .asked (errorFrame f l.client) } })
          (lines_set_self hl _) hl'
        simpa [step, List.set_set] using hsecond
      by_cases hroom : l.session.queue.length < l.session.capacity
      · obtain ⟨hsend, -⟩ :=
          Session.offered_of_room (errorFrame f l.client) hopen hroom
        have hqueued : Line.answer { l with
            reply := .asked (errorFrame f l.client) } =
              some { l.withSession { l.session with
                  queue := l.session.queue ++ [errorFrame f l.client] } with
                reply := .nothing,
                accepted :=
                  l.accepted ++ [.notice (errorFrame f l.client)] } := by
          unfold Line.session at hroom
          simp [Line.answer, Session.enqueue, Line.session,
            Line.withSession, hroom]
        exact ⟨[.answer n, .answer n], _, by simp, hboth _ hqueued,
          (hcomplain hsend).symm, rfl⟩
      · obtain ⟨hsend, -⟩ :=
          Session.offered_of_full (errorFrame f l.client) hopen hroom
        have hfull : Line.answer { l with
            reply := .asked (errorFrame f l.client) } =
              some { l with
                reply := .nothing, visit := l.visit.endReading } := by
          unfold Line.session at hroom
          simp [Line.answer, Session.enqueue, Line.session, hroom]
        exact ⟨[.answer n, .answer n], _, by simp, hboth _ hfull,
          (hcomplain hsend).symm, rfl⟩

/-- A message that is read and answered without interruption. -/
theorem run_receive {payload : Bytes} (hl : w.lines[n]? = some l)
    (hstage : l.visit.stage = .reading) (hreply : l.reply = .nothing) :
    ∃ (answers : List Event) (w' : Broadcast) (l' : Line),
      (∀ e ∈ answers, e = .answer n) ∧
      Runs.run (step queueSize) w (.read n payload :: answers) = some w' ∧
      w'.hub = (l.visit.receive payload w.hub).1 ∧ w'.lines[n]? = some l' ∧
      l'.visit = (l.visit.receive payload w.hub).2.1 ∧
      l'.reply = .nothing := by
  unfold Visit.receive
  cases hact : Visit.act l.visit.client payload { w.hub with
      metrics := w.hub.metrics.received } with
  | mk hub outcome =>
      have hact' : Visit.act l.client payload { w.hub with
        metrics := w.hub.metrics.received } = (hub, outcome) := hact
      cases outcome with
      | ok calls =>
          refine ⟨[], { w with hub }, l, by simp, ?_, rfl, hl, rfl, hreply⟩
          simp [Runs.run, step, hl, hstage, hreply, hact']
      | error f =>
          have hread : w.step queueSize (.read n payload) = some { w with
              hub := { hub with metrics := hub.metrics.failed }
              lines :=
                w.lines.set n { l with
                  reply := .unsent (errorFrame f l.client) }
              complaints := w.complaints + 1 } := by
            simp [step, hl, hstage, hreply, hact']
          obtain ⟨answers, l', hanswers, hrun, hvisit, hdone⟩ :=
            run_answer queueSize (w := { w with
              hub := { hub with metrics := hub.metrics.failed }
              lines :=
                w.lines.set n { l with
                  reply := .unsent (errorFrame f l.client) }
              complaints := w.complaints + 1 }) (lines_set_self hl _) rfl
          refine ⟨answers, _, l', hanswers, Runs.run_cons.mpr ⟨_, hread, hrun⟩,
            rfl, ?_, hvisit, hdone⟩
          simp only [List.set_set]
          exact lines_set_self hl l'

/-- The steps of the dispatcher within a round. -/
def Event.InRound : Event → Prop
  | .look _ | .advance => True
  | _ => False

/-- What a connection answers when it is offered a frame. -/
def answerOf (w : Broadcast) (c : Connection) (frame : Bytes) :
    Option SendError :=
  w.lines[c.key]?.bind fun l => (l.session.send frame).2

/-- A frame is queued and counted without interruption, or it is refused,
counted and the session is closed. -/
theorem run_asked (queueSize : Int64) {r : Round} (hround : w.round = some r)
    (hhand : r.hand = some (n, .asked)) (hl : w.lines[n]? = some l)
    (hopen : l.session.isOpen = true) :
    ∃ (es : List Event) (l' : Line), (∀ e ∈ es, e.InRound) ∧
      Runs.run (step queueSize) w es = some { w with
        hub := { w.hub with
          metrics := w.hub.metrics.offered (l.session.send r.current.frame).2 }
        lines := w.lines.set n l'
        round := some { r with hand := none } } ∧
      l'.session = l.session.offered r.current.frame := by
  have hset := lines_set_self hl
  by_cases hroom : l.session.queue.length < l.session.capacity
  · obtain ⟨hsend, hoffered⟩ :=
      Session.offered_of_room r.current.frame hopen hroom
    rw [hsend, hoffered]
    refine ⟨[.advance, .advance], { l.withSession { l.session with
        queue := l.session.queue ++ [r.current.frame] } with
        accepted := l.accepted ++ [.tick r.current.frame],
        sent := l.sent + 1 },
      by simp [Event.InRound], ?_, rfl⟩
    simp [Runs.run, step, hround, hhand, hl, hset, advance, Session.enqueue,
      hroom, Metrics.offered, Line.withSession]
  · obtain ⟨hsend, hoffered⟩ :=
      Session.offered_of_full r.current.frame hopen hroom
    rw [hsend, hoffered]
    refine ⟨[.advance, .advance, .advance], Line.close { l with
      refused := l.refused ++ [r.current.frame],
      faults := l.faults + 1 }, by simp [Event.InRound], ?_, rfl⟩
    simp [Runs.run, step, hround, hhand, hl, hset, advance, Session.enqueue,
      hroom, Metrics.offered]

/-- The connection in hand is offered the tick without interruption. -/
theorem run_offer (queueSize : Int64) {r : Round} (hround : w.round = some r)
    (hhand : r.hand = some (n, .found)) (hl : w.lines[n]? = some l) :
    ∃ (es : List Event) (found : List Nat) (l' : Line), (∀ e ∈ es, e.InRound) ∧
      Runs.run (step queueSize) w es = some { w with
        hub := { w.hub with
          metrics := w.hub.metrics.offered (l.session.send r.current.frame).2 }
        lines := w.lines.set n l'
        round := some { r with
          current := { r.current with found }, hand := none } } ∧
      l'.session = l.session.offered r.current.frame := by
  cases hopen : l.session.isOpen with
  | false =>
      obtain ⟨hsend, hoffered⟩ :=
        Session.offered_of_closed r.current.frame hopen
      have hsame : w.lines.set n l = w.lines := by
        apply List.ext_getElem?
        intro m
        rw [lines_set hl, ← lines_self hl]
      rw [hsend, hoffered]
      refine ⟨[.advance], r.current.found, l, by simp [Event.InRound], ?_, rfl⟩
      simp [Runs.run, step, hround, hhand, hl, advance, hopen,
        hsame, Metrics.offered]
  | true =>
      have hfirst : w.step queueSize .advance = some { w with
          round := some { r with
          current := { r.current with found := r.current.found ++ [n] },
          hand := some (n, .asked) } } := by
        simp [step, hround, hhand, hl, advance, hopen]
      obtain ⟨es, l', hes, hrun, hsession⟩ := run_asked queueSize
        (w := { w with round := some { r with
          current := { r.current with found := r.current.found ++ [n] },
          hand := some (n, .asked) } })
        rfl rfl hl hopen
      refine ⟨.advance :: es, r.current.found ++ [n], l', ?_,
        Runs.run_cons.mpr ⟨_, hfirst, hrun⟩, hsession⟩
      intro e he
      rcases List.mem_cons.mp he with rfl | hrest
      · trivial
      · exact hes e hrest

theorem staffed_of_run (h : w.Staffed) {es : List Event}
    (hrun : Runs.run (step queueSize) w es = some w') : w'.Staffed :=
  Runs.run_invariant
    (fun _ _ _ hs hstep => hs.step (move_of_step hstep)) h hrun

theorem step_look (queueSize : Int64) {r : Round} {client : Bytes}
    {rest : List Bytes} (hround : w.round = some r) (hhand : r.hand = none)
    (hwaiting : r.waiting = client :: rest) :
    w.step queueSize (.look client) = some { w with
      round := some { r with
        waiting := rest,
        hand := (w.hub.pool.get? client).map fun c => (c.key, .found) } } := by
  simp [step, hround, hhand, hwaiting]

/-- The stored connections of different clients are different. -/
theorem Staffed.key_ne (h : w.Staffed) {c d : Bytes} {conn other : Connection}
    (hconn : w.hub.pool.get? c = some conn)
    (hother : w.hub.pool.get? d = some other) (hne : c ≠ d) :
    conn.key ≠ other.key := by
  intro hkey
  have hc := h.owner c conn hconn
  rw [hkey, h.owner d other hother] at hc
  exact hne (Option.some.inj hc).symm

/-- The subscribers are served one after the other without interruption. -/
theorem run_serve (queueSize : Int64) (waiting : List Bytes) {r : Round}
    (hstaffed : w.Staffed) (hround : w.round = some r) (hhand : r.hand = none)
    (hwaiting : r.waiting = waiting) :
    ∃ (es : List Event) (w' : Broadcast) (r' : Round), (∀ e ∈ es, e.InRound) ∧
      Runs.run (step queueSize) w es = some w' ∧
      w'.round = some r' ∧ r'.hand = none ∧ r'.waiting = [] ∧
      w'.hub = { w.hub with
        metrics := ((waiting.filterMap w.hub.pool.get?).map fun c =>
          (c, w.answerOf c r.current.frame)).foldl
            (fun m o => m.offered o.2) w.hub.metrics } ∧
      ∀ n : Nat, w'.lines[n]?.map Line.session = w.lines[n]?.map fun l =>
        if ((waiting.filterMap w.hub.pool.get?).map
            Connection.key).contains n then
          l.session.offered r.current.frame
        else l.session := by
  induction waiting generalizing w r with
  | nil =>
      refine ⟨[], w, r, by simp, rfl, hround, hhand, hwaiting,
        rfl, fun n => ?_⟩
      simp
  | cons c rest ih =>
      have hnodup : (c :: rest).Nodup :=
        hwaiting ▸ (hstaffed.round r hround).nodup
      have hlook := step_look queueSize hround hhand hwaiting
      cases hconn : w.hub.pool.get? c with
      | none =>
          rw [hconn] at hlook
          obtain ⟨es, w', r', hes, hrun, hr', hhand', hdone, hhub, hlines⟩ :=
            ih (hstaffed.step (move_of_step hlook)) rfl rfl rfl
          rw [List.filterMap_cons_none hconn]
          exact ⟨.look c :: es, w', r',
            List.forall_mem_cons.mpr ⟨trivial, hes⟩,
            Runs.run_cons.mpr ⟨_, hlook, hrun⟩, hr', hhand',
            hdone, hhub, hlines⟩
      | some conn =>
          rw [hconn] at hlook
          obtain ⟨l, hl, -⟩ :=
            Option.map_eq_some_iff.mp
              ((List.getElem?_map (f := Line.client)).symm.trans
                (hstaffed.owner c conn hconn))
          obtain ⟨offers, found, l', hoffers, hoffer, hsession⟩ :=
            run_offer queueSize (w := { w with round := some { r with
              waiting := rest,
              hand := (some conn).map fun c => (c.key, .found) } }) rfl rfl hl
          have hboth := Runs.run_cons.mpr ⟨_, hlook, hoffer⟩
          obtain ⟨es, w', r', hes, hrun, hr', hhand', hdone, hhub, hlines⟩ :=
            ih (staffed_of_run hstaffed hboth) rfl rfl rfl
          -- the others answer as before, since none of them is the connection
          -- that was served
          have hothers : ∀ d ∈ rest.filterMap w.hub.pool.get?,
              conn.key ≠ d.key := by
            intro d hd
            obtain ⟨client, hclient, hstored⟩ := List.mem_filterMap.mp hd
            refine hstaffed.key_ne hconn hstored ?_
            rintro rfl
            exact (List.nodup_cons.mp hnodup).1 hclient
          rw [List.filterMap_cons_some hconn]
          refine ⟨.look c :: offers ++ es, w', r', ?_,
            Runs.run_append.mpr ⟨_, hboth, hrun⟩, hr', hhand',
            hdone, ?_, fun n => ?_⟩
          · intro e he
            rcases List.mem_append.mp he with hfirst | hrest
            · exact List.forall_mem_cons.mpr ⟨trivial, hoffers⟩ e hfirst
            · exact hes e hrest
          · have hanswers : ((rest.filterMap w.hub.pool.get?).map fun d =>
                (d, (w.lines.set conn.key l')[d.key]?.bind
                  fun k => (k.session.send r.current.frame).2)) =
                (rest.filterMap w.hub.pool.get?).map fun d =>
                    (d, w.answerOf d r.current.frame) := by
              apply List.map_congr_left
              intro d hd
              rw [lines_set hl, if_neg (hothers d hd)]
              rfl
            have hmine :
                w.answerOf conn r.current.frame =
                  (l.session.send r.current.frame).2 := by
              simp [answerOf, hl]
            rw [hhub, List.map_cons, List.foldl_cons, hmine, ← hanswers]
            rfl
          · rw [hlines n]
            show (w.lines.set conn.key l')[n]?.map _ = _
            rw [lines_set hl]
            by_cases hn : conn.key = n
            · subst hn
              have hleft :
                  ((rest.filterMap w.hub.pool.get?).map
                    Connection.key).contains conn.key = false := by
                simp only [List.contains_eq_mem, decide_eq_false_iff_not,
                  List.mem_map, not_exists, not_and]
                exact fun d hd hkey => hothers d hd hkey.symm
              simp only [if_true, hl, Option.map_some, hleft, hsession,
                List.map_cons, List.contains_cons, BEq.rfl, Bool.true_or]
              rfl
            · have hkey : (n == conn.key) = false := by simpa using Ne.symm hn
              simp only [if_neg hn, List.map_cons, List.contains_cons,
                hkey, Bool.false_or]

/-- The frame that a plan holds for a connection. -/
def frameFor (n : Nat) : Dispatch.Plan → Option Bytes
  | .offer frame targets =>
      if (targets.map Connection.key).contains n then some frame else none
  | _ => none

/-- A round that nobody interrupts is a dispatch: the counters are those of the
report, and the sessions of the connections in the plan were offered its
frame. -/
theorem run_dispatch (queueSize : Int64) (latency : Binary64) (t : Tick)
    (hstaffed : w.Staffed) (hround : w.round = none) :
    ∃ (es : List Event) (w' : Broadcast),
      (∀ e ∈ es, e.InRound ∨ e = .finish latency) ∧
      Runs.run (step queueSize) w (.dispatch t :: es) = some w' ∧
      w'.round = none ∧
      w'.hub = (w.hub.dispatch w.answerOf latency t).1 ∧
      ∀ n : Nat, w'.lines[n]?.map Line.session = w.lines[n]?.map fun l =>
        match frameFor n (w.hub.dispatch w.answerOf latency t).2.1 with
        | some frame => l.session.offered frame
        | none => l.session := by
  unfold Hub.dispatch
  cases hplan : Dispatch.plan w.hub.registry w.hub.pool t with
  | nothing =>
      refine ⟨[], w, by simp, ?_, hround, rfl, fun n => rfl⟩
      simp [Runs.run, step, hround, hplan]
  | unwritable =>
      refine ⟨[], { w with
        hub := { w.hub with metrics := w.hub.metrics.failed },
        complaints := w.complaints + 1 },
        by simp, ?_, hround, rfl, fun n => rfl⟩
      simp [Runs.run, step, hround, hplan]
  | offer frame targets =>
      have htargets : targets = (w.hub.registry.subscribers
          t.symbol).filterMap w.hub.pool.get? := by
        unfold Dispatch.plan at hplan
        split at hplan
        · cases hplan
        · split at hplan
          · cases hplan
          · cases hplan
            rfl
      have hstart : w.step queueSize (.dispatch t) = some { w with
          round := some {
            current :=
              { frame, subscribers := w.hub.registry.subscribers t.symbol }
            waiting := w.hub.registry.subscribers t.symbol } } := by
        simp [step, hround, hplan]
      obtain ⟨es, v, r, hes, hrun, hr, hhand, hdone, hhub, hlines⟩ :=
        run_serve queueSize _ (hstaffed.step (move_of_step hstart)) rfl rfl rfl
      have hfinish : v.step queueSize (.finish latency) = some { v with
          hub := { v.hub with metrics := v.hub.metrics.record latency }
          past := v.past ++ [r.current]
          round := none } := by
        simp [step, hr, hhand, hdone]
      refine ⟨es ++ [.finish latency], _, ?_,
        Runs.run_cons.mpr ⟨_, hstart, Runs.run_append.mpr
          ⟨_, hrun, Runs.run_cons.mpr ⟨_, hfinish, rfl⟩⟩⟩,
        rfl, ?_, fun n => ?_⟩
      · intro e he
        rcases List.mem_append.mp he with hserve | hlast
        · exact Or.inl (hes e hserve)
        · exact Or.inr (List.mem_singleton.mp hlast)
      · simp only [Dispatch.Report.count_eq, htargets, hhub]
        rfl
      · refine (hlines n).trans ?_
        rw [htargets]
        simp only [frameFor]
        congr 1
        funext l
        split
        · rfl
        · rfl

end Broadcast
end Server
end TickRelay
