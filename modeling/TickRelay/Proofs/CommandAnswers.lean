import TickRelay.Proofs.DeliveryCalls
import TickRelay.Proofs.OutgoingFrames

/-!
# Commands are carried out or answered

A reader takes one message of its client after the other. A message that is a
command is carried out in the hub, and any other is answered by an error frame.

**Input.** Any history of the server, in which all readers, pumps and the
dispatcher take turns, and a connection that nobody closes, whose client does
not hang up, and whose queue has room whenever a frame is to be queued
(`undisturbed`).

**Results.** `rejected_iff` says which messages are answered, and
`act_of_rejection` and `exists_call_of_accepted` what the two kinds of messages
do. `Attends.step` is what one event does to the answers of a connection, and
`commands_answered` puts together what a whole history did. (A message that
nobody interrupts is `Visit.receive`, by `run_receive`.)
-/

namespace TickRelay

namespace Hub

variable (h : Hub) (client symbol : Bytes) (m : Metrics)

/-- The counters have no part in a subscription. -/
theorem subscribe_metrics :
    ({ h with metrics := m } : Hub).subscribe client symbol =
      ({ (h.subscribe client symbol).1 with
        metrics := m }, (h.subscribe client symbol).2) := by
  unfold subscribe join
  dsimp only
  split
  · rfl
  · cases (h.registry.join client (Symbol.normalize symbol)).2 <;> rfl

theorem unsubscribe_metrics :
    ({ h with metrics := m } : Hub).unsubscribe client symbol =
      ({ (h.unsubscribe client symbol).1 with
        metrics := m }, (h.unsubscribe client symbol).2) := by
  unfold unsubscribe leave
  dsimp only
  split
  · rfl
  · cases (h.registry.leave client (Symbol.normalize symbol)).2 <;> rfl

variable {symbol}

theorem subscribe_ok (hsymbol : Symbol.normalize symbol ≠ []) :
    ∃ calls, (h.subscribe client symbol).2 = .ok calls := by
  unfold subscribe
  dsimp only
  rw [if_neg hsymbol]
  split
  · exact ⟨_, rfl⟩
  · exact ⟨_, rfl⟩

theorem unsubscribe_ok (hsymbol : Symbol.normalize symbol ≠ []) :
    ∃ calls, (h.unsubscribe client symbol).2 = .ok calls := by
  unfold unsubscribe
  dsimp only
  rw [if_neg hsymbol]
  split
  · exact ⟨_, rfl⟩
  · exact ⟨_, rfl⟩

end Hub

namespace Server

namespace Command

/-- A message that is answered: it cannot be read, asks for something else, or
names no symbol. -/
inductive Rejected (payload : Bytes) : Prop
  | malformed (hread : Request.decode? payload = none)
  | unknown {r : Request} (hread : Request.decode? payload = some r)
      (hsubscribe : r.kind ≠ utf8 "subscribe")
        (hunsubscribe : r.kind ≠ utf8 "unsubscribe")
  | blank {r : Request} (hread : Request.decode? payload = some r)
      (hblank : Symbol.normalize r.symbol = [])

/-- The fault that is reported of a message. -/
def rejection (payload : Bytes) : Option Fault :=
  match Request.decode? payload with
  | none => some CommandError.malformed.fault
  | some r =>
    if r.kind ≠ utf8 "subscribe" ∧ r.kind ≠ utf8 "unsubscribe" then
      some (CommandError.unknown r.kind).fault
    else if Symbol.normalize r.symbol = [] then some Registry.symbolRequired
    else none

/-- The frames that answer some messages of a client. -/
def answers (client : Bytes) (payloads : List Bytes) : List Bytes :=
  payloads.filterMap fun payload => (rejection payload).map fun f =>
    errorFrame f client

variable {payload : Bytes} {f : Fault}

/-- The three places where a message is found to be no command. -/
theorem rejection_eq_some (h : rejection payload = some f) :
    (Request.decode? payload = none ∧ f = CommandError.malformed.fault) ∨
    ∃ r, Request.decode? payload = some r ∧
      ((r.kind ≠ utf8 "subscribe" ∧ r.kind ≠ utf8 "unsubscribe" ∧
          f = (CommandError.unknown r.kind).fault) ∨
        ((r.kind = utf8 "subscribe" ∨ r.kind = utf8 "unsubscribe") ∧
            Symbol.normalize r.symbol = [] ∧
          f = Registry.symbolRequired)) := by
  unfold rejection at h
  split at h
  · rename_i hread
    cases h
    exact .inl ⟨hread, rfl⟩
  · rename_i r hread
    refine .inr ⟨r, hread, ?_⟩
    split at h
    · rename_i hkind
      cases h
      exact .inl ⟨hkind.1, hkind.2, rfl⟩
    · rename_i hkind
      split at h
      · rename_i hblank
        cases h
        exact .inr ⟨or_iff_not_and_not.mpr hkind, hblank, rfl⟩
      · cases h

theorem rejection_eq_none (h : rejection payload = none) :
    ∃ r, Request.decode? payload = some r ∧
      (r.kind = utf8 "subscribe" ∨ r.kind = utf8 "unsubscribe") ∧
        Symbol.normalize r.symbol ≠ [] := by
  unfold rejection at h
  split at h
  · cases h
  · rename_i r hread
    split at h
    · cases h
    · rename_i hkind
      split at h
      · cases h
      · rename_i hsymbol
        exact ⟨r, hread, or_iff_not_and_not.mpr hkind, hsymbol⟩

theorem rejected_iff : Rejected payload ↔ ∃ f, rejection payload = some f := by
  constructor
  · intro hrejected
    cases hnone : rejection payload with
    | some f => exact ⟨f, rfl⟩
    | none =>
        obtain ⟨r, hread, hkind, hsymbol⟩ := rejection_eq_none hnone
        cases hrejected with
        | malformed hread' => simp [hread] at hread'
        | unknown hread' hsubscribe hunsubscribe =>
            cases hread.symm.trans hread'
            exact (hkind.elim hsubscribe hunsubscribe).elim
        | blank hread' hblank =>
            cases hread.symm.trans hread'
            exact absurd hblank hsymbol
  · rintro ⟨f, hf⟩
    rcases rejection_eq_some hf with ⟨hread, -⟩ |
      ⟨r, hread, ⟨hsubscribe, hunsubscribe, -⟩ | ⟨-, hblank, -⟩⟩
    · exact .malformed hread
    · exact .unknown hread hsubscribe hunsubscribe
    · exact .blank hread hblank

/-- Every fault that is reported of a message has the code of subscriptions. -/
theorem code_of_rejection (h : rejection payload = some f) :
    f.code = 1002 := by
  rcases rejection_eq_some h with ⟨-, rfl⟩ | ⟨r, -, ⟨-, -, rfl⟩ | ⟨-, -, rfl⟩⟩
  · rfl
  · rfl
  · rfl

end Command

namespace Visit

open Command

variable {payload : Bytes} {f : Fault}

/-- The hub refuses an empty symbol as well, with the same fault as the one who
looks before. -/
theorem act_of_read (client : Bytes) (h : Hub) {r : Request}
    (hread : Request.decode? payload = some r) :
    act client payload h =
      if r.kind = utf8 "subscribe" then h.subscribe client r.symbol
      else if r.kind = utf8 "unsubscribe" then h.unsubscribe client r.symbol
      else (h, .error (CommandError.unknown r.kind).fault) := by
  unfold act Command.parse
  rw [hread]
  by_cases hsubscribe : r.kind = utf8 "subscribe"
  · by_cases hempty : r.symbol = []
    · simp only [if_pos hsubscribe, hempty, if_true]
      rfl
    · simp only [if_pos hsubscribe, if_neg hempty]
      rfl
  · by_cases hunsubscribe : r.kind = utf8 "unsubscribe"
    · by_cases hempty : r.symbol = []
      · simp only [if_neg hsubscribe, if_pos hunsubscribe, hempty, if_true]
        rfl
      · simp only [if_neg hsubscribe, if_pos hunsubscribe, if_neg hempty]
        rfl
    · simp only [if_neg hsubscribe, if_neg hunsubscribe]

/-- A message that is answered does nothing in the hub. -/
theorem act_of_rejection (client : Bytes) (h : Hub)
    (hf : rejection payload = some f) :
    act client payload h = (h, .error f) := by
  rcases rejection_eq_some hf with
    ⟨hread, rfl⟩ |
      ⟨r, hread, ⟨hsubscribe, hunsubscribe, rfl⟩ | ⟨hkind, hblank, rfl⟩⟩
  · simp only [act, Command.parse, hread]
  · rw [act_of_read client h hread, if_neg hsubscribe, if_neg hunsubscribe]
  · have hsubscribe :
        h.subscribe client r.symbol = (h, .error Registry.symbolRequired) :=
      if_pos hblank
    have hunsubscribe :
        h.unsubscribe client r.symbol = (h, .error Registry.symbolRequired) :=
      if_pos hblank
    rw [act_of_read client h hread, hsubscribe, hunsubscribe]
    rcases hkind with hkind | hkind
    · rw [if_pos hkind]
    · rw [if_pos hkind, ite_self]

/-- A message that is not answered is a call of the hub, which succeeds. -/
theorem exists_call_of_accepted (client : Bytes) (h : Hub)
    (hnone : rejection payload = none) :
    ∃ (r : Request) (calls : List ProviderCall),
      Request.decode? payload = some r ∧ Symbol.normalize r.symbol ≠ [] ∧
      ((r.kind = utf8 "subscribe" ∧
          act client payload h =
            ((h.subscribe client r.symbol).1, .ok calls)) ∨
        (r.kind = utf8 "unsubscribe" ∧
          act client payload h =
            ((h.unsubscribe client r.symbol).1, .ok calls))) := by
  obtain ⟨r, hread, hkind, hsymbol⟩ := rejection_eq_none hnone
  rw [act_of_read client h hread]
  by_cases hsubscribe : r.kind = utf8 "subscribe"
  · obtain ⟨calls, hcalls⟩ := h.subscribe_ok client hsymbol
    refine ⟨r, calls, hread, hsymbol, .inl ⟨hsubscribe, ?_⟩⟩
    rw [if_pos hsubscribe, ← hcalls]
  · have hunsubscribe := hkind.resolve_left hsubscribe
    obtain ⟨calls, hcalls⟩ := h.unsubscribe_ok client hsymbol
    refine ⟨r, calls, hread, hsymbol, .inr ⟨hunsubscribe, ?_⟩⟩
    rw [if_neg hsubscribe, if_pos hunsubscribe, ← hcalls]

end Visit

def Queued.notice? : Queued → Option Bytes
  | .tick _ => none
  | .notice f => some f

namespace Reply

/-- The error frame that is not queued yet. -/
def pending : Reply → List Bytes
  | nothing => []
  | unsent frame => [frame]
  | asked frame => [frame]

def isAsked : Reply → Bool
  | asked _ => true
  | _ => false

end Reply

namespace Line

variable {l l' : Line} {payloads : List Bytes}

/-- The error frames that the session took. -/
def notices (l : Line) : List Bytes := l.accepted.filterMap Queued.notice?

def isFull (l : Line) : Bool := l.session.capacity ≤ l.session.queue.length

/-- The reader sees no change. -/
structure Steady (l l' : Line) : Prop where
  client : l'.client = l.client
  stage : l'.visit.stage = l.visit.stage
  isOpen : l'.session.isOpen = l.session.isOpen
  reply : l'.reply = l.reply
  notices : l'.notices = l.notices

theorem Steady.refl (l : Line) : l.Steady l := ⟨rfl, rfl, rfl, rfl, rfl⟩

theorem steady_take (h : l.take = some l') : l.Steady l' := by
  unfold take at h
  split at h
  · cases h
    refine ⟨rfl, rfl, ?_, rfl, rfl⟩
    show (l.session.pump .frame).1.isOpen = _
    cases hqueue : l.session.queue <;> simp [Session.pump, hqueue]
  · cases h

theorem steady_write {ok : Bool} (h : l.write ok = some l') : l.Steady l' := by
  unfold write at h
  split at h
  · cases h
  · split at h
    · cases h
    · split at h
      · cases h
        exact ⟨rfl, rfl, rfl, rfl, rfl⟩
      · cases h
        exact ⟨rfl, rfl, rfl, rfl, rfl⟩

theorem steady_stop (h : l.stop = some l') : l.Steady l' := by
  unfold stop at h
  split at h
  · cases h
    exact ⟨rfl, rfl, rfl, rfl, rfl⟩
  · cases h

/-- A connection that is read and open, and whose reader has answered the
messages so far. The last answer may still be in the reader's hand. -/
structure Attends (payloads : List Bytes) (l : Line) : Prop where
  stage : l.visit.stage = .reading
  isOpen : l.session.isOpen = true
  answers : l.notices ++ l.reply.pending = Command.answers l.client payloads

namespace Attends

theorem steady (h : l.Attends payloads) (hsteady : l.Steady l') :
    l'.Attends payloads where
  stage := hsteady.stage.trans h.stage
  isOpen := hsteady.isOpen.trans h.isOpen
  answers := by rw [hsteady.notices, hsteady.reply, hsteady.client, h.answers]

/-- A message that is not answered. -/
theorem accept (h : l.Attends payloads) {payload : Bytes}
    (hnone : Command.rejection payload = none) :
    l.Attends (payloads ++ [payload]) where
  stage := h.stage
  isOpen := h.isOpen
  answers := by
    rw [h.answers, Command.answers, Command.answers, List.filterMap_append]
    simp [hnone]

/-- A message that is to be answered comes to the reader when no other answer
is in its hand. -/
theorem reject (h : l.Attends payloads) (hreply : l.reply = .nothing)
    {payload : Bytes} {f : Fault} (hf : Command.rejection payload = some f) :
    Attends (payloads ++ [payload]) { l with
      reply := .unsent (errorFrame f l.client) } where
  stage := h.stage
  isOpen := h.isOpen
  answers := by
    have hanswers := h.answers
    rw [hreply, Reply.pending, List.append_nil] at hanswers
    show l.notices ++ [errorFrame f l.client] =
      Command.answers l.client (payloads ++ [payload])
    rw [hanswers, Command.answers, Command.answers, List.filterMap_append]
    simp [hf]

/-- The reader goes on with its answer, and finds the session open and with
room. -/
theorem answer (h : l.Attends payloads)
    (hroom : l.reply.isAsked = true → l.isFull = false)
    (hanswer : l.answer = some l') : l'.Attends payloads := by
  have hanswers := h.answers
  unfold Line.answer at hanswer
  split at hanswer
  · cases hanswer
  · rename_i frame hreply
    rw [if_pos h.isOpen] at hanswer
    cases hanswer
    rw [hreply] at hanswers
    exact ⟨h.stage, h.isOpen, hanswers⟩
  · rename_i frame hreply
    rw [hreply] at hanswers hroom
    have hfits : l.session.queue.length < l.session.capacity := by
      simpa [isFull] using hroom rfl
    rw [Session.enqueue, if_pos hfits] at hanswer
    cases hanswer
    refine ⟨h.stage, h.isOpen, ?_⟩
    show (l.accepted ++ [Queued.notice frame]).filterMap Queued.notice? ++ [] =
      Command.answers l.client payloads
    rw [List.append_nil, List.filterMap_append]
    exact hanswers

end Attends

theorem attends_new {client : Bytes} {queueSize : Int64} {session : Session}
    {conn : Connection} (h : Session.create? client queueSize = some session) :
    Attends [] { visit := { conn, session } } := by
  unfold Session.create? at h
  split at h
  · cases h
    exact ⟨rfl, rfl, rfl⟩
  · cases h

end Line

namespace Broadcast

variable {queueSize : Int64} {w w' : Broadcast} {n : Nat}

/-- The message that an event is for a reader. -/
def Event.message? (n : Nat) : Event → Option Bytes
  | .read m payload => if m = n then some payload else none
  | _ => none

/-- The messages that a reader took, oldest first. -/
def messages (n : Nat) (es : List Event) : List Bytes :=
  es.filterMap (Event.message? n)

theorem messages_cons (e : Event) (es : List Event) :
    messages n (e :: es) = (e.message? n).toList ++ messages n es := by
  rw [messages, List.filterMap_cons]
  cases e.message? n <;> rfl

/-- Somebody closes a connection or its client hangs up, or there is no room
for a frame that is to be queued. -/
def disturbs (n : Nat) (w : Broadcast) : Event → Bool
  | .close m => m = n
  | .hangUp m => m = n
  | .answer m =>
      decide (m = n) && w.lines[n]?.any fun l => l.reply.isAsked && l.isFull
  | .advance =>
      (w.round.any fun r => r.hand = some (n, .asked)) &&
        w.lines[n]?.any Line.isFull
  | _ => false

/-- Nothing disturbs a connection in a history. -/
def undisturbed (queueSize : Int64) (n : Nat) (w : Broadcast) :
    List Event → Bool
  | [] => true
  | e :: es =>
      !w.disturbs n e && (w.step queueSize e).all fun w' =>
        w'.undisturbed queueSize n es

/-- What a message changes in the hub and in the reader's hand. -/
theorem read_cases {payload : Bytes}
    (hstep : w.step queueSize (.read n payload) = some w') :
    ∃ l, w.lines[n]? = some l ∧ l.reply = .nothing ∧
      ((∃ f, Command.rejection payload = some f ∧ w' = { w with
          hub := { w.hub with metrics := w.hub.metrics.received.failed }
          lines :=
            w.lines.set n { l with reply := .unsent (errorFrame f l.client) }
          complaints := w.complaints + 1 }) ∨
        (Command.rejection payload = none ∧ ∃ (r : Request) (hub : Hub),
          Request.decode? payload = some r ∧ Symbol.normalize r.symbol ≠ [] ∧
          (r.kind = utf8 "subscribe" ∧
              hub = (w.hub.subscribe l.client r.symbol).1 ∨
            r.kind = utf8 "unsubscribe" ∧
              hub = (w.hub.unsubscribe l.client r.symbol).1) ∧
          w' = { w with
            hub := { hub with metrics := w.hub.metrics.received } })) := by
  cases hl : w.lines[n]? with
  | none => simp [step, hl] at hstep
  | some l =>
      simp only [step, hl] at hstep
      split at hstep
      · rename_i hready
        refine ⟨l, rfl, hready.2, ?_⟩
        cases hrejection : Command.rejection payload with
        | some f =>
            rw [Visit.act_of_rejection l.client _ hrejection] at hstep
            cases hstep
            exact .inl ⟨f, rfl, rfl⟩
        | none =>
            obtain ⟨r, calls, hread, hsymbol, hcall⟩ :=
              Visit.exists_call_of_accepted l.client { w.hub with
                metrics := w.hub.metrics.received } hrejection
            rcases hcall with ⟨hkind, hact⟩ | ⟨hkind, hact⟩
            · rw [hact, Hub.subscribe_metrics] at hstep
              cases hstep
              exact .inr ⟨rfl, r, _, hread, hsymbol, .inl ⟨hkind, rfl⟩, rfl⟩
            · rw [hact, Hub.unsubscribe_metrics] at hstep
              cases hstep
              exact .inr ⟨rfl, r, _, hread, hsymbol, .inr ⟨hkind, rfl⟩, rfl⟩
      · cases hstep

/-- A connection attends to its messages once it is there, and the dispatcher
is not about to close it. -/
structure Attends (n : Nat) (payloads : List Bytes) (w : Broadcast) :
    Prop where
  absent : w.lines[n]? = none → payloads = []
  line : ∀ l, w.lines[n]? = some l → l.Attends payloads
  spared : ∀ r phase, w.round = some r → r.hand = some (n, phase) →
    phase ≠ .refused ∧ phase ≠ .closing

namespace Attends

variable {payloads : List Bytes}

/-- The reader sees no change, and the dispatcher does not turn against the
connection. -/
theorem pass (h : w.Attends n payloads)
    (hlines : Option.Rel Line.Steady w.lines[n]? w'.lines[n]?)
    (hspared : ∀ r phase, w'.round = some r → r.hand = some (n, phase) →
      phase ≠ .refused ∧ phase ≠ .closing) : w'.Attends n payloads where
  absent hnone := by
    rw [hnone] at hlines
    cases hl : w.lines[n]? with
    | none => exact h.absent hl
    | some l =>
        rw [hl] at hlines
        cases hlines
  line l' hl' := by
    rw [hl'] at hlines
    cases hl : w.lines[n]? with
    | none =>
        rw [hl] at hlines
        cases hlines
    | some l =>
        rw [hl] at hlines
        cases hlines with
        | some hsteady => exact (h.line l hl).steady hsteady
  spared := hspared

/-- The dispatcher has no connection in hand. -/
theorem idle (h : w.Attends n payloads)
    (hlines : Option.Rel Line.Steady w.lines[n]? w'.lines[n]?)
    (hhand : ∀ r, w'.round = some r → r.hand = none) :
    w'.Attends n payloads := by
  refine h.pass hlines fun r phase hr hn => ?_
  rw [hhand r hr] at hn
  cases hn

theorem rel_self (o : Option Line) : Option.Rel Line.Steady o o := by
  cases o with
  | none => exact .none
  | some l => exact .some (.refl l)

theorem rel_set {m : Nat} {l l' : Line} (hl : w.lines[m]? = some l)
    (hsteady : m = n → l.Steady l') :
    Option.Rel Line.Steady w.lines[n]? (w.lines.set m l')[n]? := by
  rw [lines_set hl]
  split
  · rename_i hm
    rw [← hm, hl]
    exact .some (hsteady hm)
  · exact rel_self _

/-- Only the hub changes. -/
theorem hub (h : w.Attends n payloads) {hub : Hub} {complaints : Nat} :
    Attends n payloads { w with hub, complaints } :=
  h.pass (rel_self _) h.spared

theorem onLine (h : w.Attends n payloads) {m : Nat} {f : Line → Option Line}
    (hf : m = n → ∀ l l', w.lines[n]? = some l → f l = some l' → l.Steady l')
    (hstep : w.onLine m f = some w') : w'.Attends n payloads := by
  unfold Broadcast.onLine at hstep
  obtain ⟨l, hl, hline⟩ := Option.bind_eq_some_iff.mp hstep
  obtain ⟨l', hl', rfl⟩ := Option.map_eq_some_iff.mp hline
  refine h.pass (rel_set hl fun hm => ?_) h.spared
  exact hf hm l l' (hm ▸ hl) hl'

theorem arrive (h : w.Attends n payloads) {now : Instant} {client : Bytes}
    (hstep : w.step queueSize (.arrive now client) = some w') :
    w'.Attends n payloads := by
  obtain ⟨session, hsession, ⟨limiter, rfl⟩ | ⟨limiter, metrics, -, -, rfl⟩⟩ :=
    arrive_cases hstep
  · exact h.hub
  · refine ⟨fun hnone => h.absent ?_, fun l hl => ?_, h.spared⟩
    · rw [List.getElem?_eq_none_iff, List.length_append] at hnone
      exact List.getElem?_eq_none (Nat.le_trans (Nat.le_add_right _ _) hnone)
    · rw [List.getElem?_append] at hl
      split at hl
      · exact h.line l hl
      · rename_i hlength
        rw [h.absent (List.getElem?_eq_none (Nat.le_of_not_lt hlength))]
        obtain rfl := List.eq_of_mem_singleton (List.mem_of_getElem? hl)
        exact Line.attends_new hsession

/-- The dispatcher goes on with the connection in hand. -/
theorem advance (h : w.Attends n payloads)
    (hcalm : w.disturbs n .advance = false) {r : Round} {m : Nat}
    {phase : Phase} {l : Line} (hround : w.round = some r)
    (hhand : r.hand = some (m, phase)) (hl : w.lines[m]? = some l) :
    (w.advance r m l phase).Attends n payloads := by
  have hspared := fun hm : m = n => h.spared r phase hround (hm ▸ hhand)
  unfold Broadcast.advance
  cases phase with
  | found =>
      dsimp only
      split
      · refine h.pass (rel_self _) fun r' phase' hr' hhand' => ?_
        cases hr'
        cases hhand'
        decide
      · exact h.idle (rel_self _) (by rintro r' ⟨⟩; rfl)
  | asked =>
      dsimp only
      unfold Session.enqueue
      split
      · rename_i session hsession
        split at hsession
        · cases hsession
          refine h.pass (rel_set hl fun _ => ⟨rfl, rfl, rfl, rfl, ?_⟩)
            fun r' phase' hr' hhand' => ?_
          · simp [Line.notices, Queued.notice?]
          · cases hr'
            cases hhand'
            decide
        · cases hsession
      · rename_i session e hsession
        split at hsession
        · cases hsession
        · rename_i hroom
          have hfull : l.isFull = true :=
            decide_eq_true (Nat.le_of_not_lt hroom)
          have hne : m ≠ n := by
            rintro rfl
            simp [disturbs, hround, hhand, hl, hfull] at hcalm
          refine h.pass (rel_set hl fun hm => absurd hm hne)
            fun r' phase' hr' hhand' => ?_
          cases hr'
          cases hhand'
          exact absurd rfl hne
  | accepted =>
      exact h.idle (rel_set hl fun _ => ⟨rfl, rfl, rfl, rfl, rfl⟩)
        (by rintro r' ⟨⟩; rfl)
  | refused =>
      have hne : m ≠ n := fun hm => (hspared hm).1 rfl
      refine h.pass (rel_set hl fun hm => absurd hm hne)
        fun r' phase' hr' hhand' => ?_
      cases hr'
      cases hhand'
      exact absurd rfl hne
  | closing =>
      exact h.idle (rel_set hl fun hm => absurd rfl (hspared hm).2)
        (by rintro r' ⟨⟩; rfl)

theorem read (h : w.Attends n payloads) {m : Nat} {payload : Bytes}
    (hstep : w.step queueSize (.read m payload) = some w') :
    w'.Attends n
      (payloads ++ (Event.message? n (.read m payload)).toList) := by
  obtain ⟨l, hl, hreply, hcases⟩ := read_cases hstep
  by_cases hm : m = n
  · subst hm
    have hline := h.line l hl
    rw [Event.message?, if_pos rfl, Option.toList_some]
    rcases hcases with ⟨f, hf, rfl⟩ | ⟨hnone, r, hub, -, -, -, rfl⟩
    · refine ⟨fun hgone => ?_, fun l' hl' => ?_, h.spared⟩
      · rw [lines_set hl, if_pos rfl] at hgone
        cases hgone
      · rw [lines_set hl, if_pos rfl] at hl'
        cases hl'
        exact hline.reject hreply hf
    · refine ⟨fun hgone => ?_, fun l' hl' => ?_, h.spared⟩
      · rw [hl] at hgone
        cases hgone
      · rw [hl] at hl'
        cases hl'
        exact hline.accept hnone
  · rw [Event.message?, if_neg hm, Option.toList_none, List.append_nil]
    rcases hcases with ⟨f, hf, rfl⟩ | ⟨hnone, r, hub, -, -, -, rfl⟩
    · exact h.pass (rel_set hl fun heq => absurd heq hm) h.spared
    · exact h.hub

theorem answer (h : w.Attends n payloads) {m : Nat}
    (hcalm : w.disturbs n (.answer m) = false)
    (hstep : w.onLine m Line.answer = some w') : w'.Attends n payloads := by
  by_cases hm : m = n
  · subst hm
    unfold Broadcast.onLine at hstep
    obtain ⟨l, hl, hline⟩ := Option.bind_eq_some_iff.mp hstep
    obtain ⟨l', hl', rfl⟩ := Option.map_eq_some_iff.mp hline
    have hroom : l.reply.isAsked = true → l.isFull = false := by
      simpa [disturbs, hl] using hcalm
    refine ⟨fun hgone => ?_, fun k hk => ?_, h.spared⟩
    · rw [lines_set hl, if_pos rfl] at hgone
      cases hgone
    · rw [lines_set hl, if_pos rfl] at hk
      cases hk
      exact (h.line l hl).answer hroom hl'
  · exact h.onLine (fun heq => absurd heq hm) hstep

/-- What one event does to the answers of a connection. -/
theorem step (h : w.Attends n payloads) {e : Event}
    (hcalm : w.disturbs n e = false) (hstep : w.step queueSize e = some w') :
    w'.Attends n (payloads ++ (e.message? n).toList) := by
  have hsilent : ∀ {e : Event}, e.message? n = none → w'.Attends n payloads →
      w'.Attends n (payloads ++ (e.message? n).toList) := by
    intro e he h'
    rwa [he, Option.toList_none, List.append_nil]
  cases e with
  | arrive now client => exact hsilent rfl (h.arrive hstep)
  | read m payload => exact h.read hstep
  | answer m => exact hsilent rfl (h.answer hcalm hstep)
  | hangUp m =>
      exact hsilent rfl
        (h.onLine (fun hm => absurd hm (of_decide_eq_false hcalm)) hstep)
  | turn m =>
      obtain ⟨l, hl, hstage, rfl⟩ := turn_cases hstep
      refine hsilent rfl (h.pass (rel_set hl fun hm => ?_) h.spared)
      exact absurd (h.line l (hm ▸ hl)).stage hstage
  | remove client =>
      cases hstep
      exact hsilent rfl h.hub
  | closeAll =>
      cases hstep
      exact hsilent rfl h.hub
  | close m =>
      exact hsilent rfl
        (h.onLine (fun hm => absurd hm (of_decide_eq_false hcalm)) hstep)
  | take m =>
      exact hsilent rfl (h.onLine (fun _ _ _ _ => Line.steady_take) hstep)
  | write m ok =>
      exact hsilent rfl (h.onLine (fun _ _ _ _ => Line.steady_write) hstep)
  | stop m =>
      exact hsilent rfl (h.onLine (fun _ _ _ _ => Line.steady_stop) hstep)
  | dispatch t =>
      obtain ⟨-, rfl | rfl | ⟨frame, rfl⟩⟩ := dispatch_cases hstep
      · exact hsilent rfl h
      · exact hsilent rfl h.hub
      · exact hsilent rfl (h.idle (rel_self _) (by rintro r ⟨⟩; rfl))
  | look client =>
      obtain ⟨r, -, -, -, rfl⟩ := look_cases hstep
      refine hsilent rfl (h.pass (rel_self _) fun r' phase hr hhand => ?_)
      cases hr
      obtain ⟨c, -, hc⟩ := Option.map_eq_some_iff.mp hhand
      cases hc
      decide
  | advance =>
      obtain ⟨r, m, phase, l, hround, hhand, hl, rfl⟩ := advance_cases hstep
      exact hsilent rfl (h.advance hcalm hround hhand hl)
  | finish latency =>
      obtain ⟨r, -, -, -, rfl⟩ := finish_cases hstep
      exact hsilent rfl (h.idle (rel_self _) (by rintro r' ⟨⟩))
  | outside limiter feed messages errors =>
      cases hstep
      exact hsilent rfl h.hub

theorem run (h : w.Attends n payloads) {es : List Event}
    (hcalm : w.undisturbed queueSize n es = true)
    (hrun : Runs.run (Broadcast.step queueSize) w es = some w') :
    w'.Attends n (payloads ++ messages n es) := by
  induction es generalizing w payloads with
  | nil =>
      cases hrun
      rwa [messages, List.filterMap_nil, List.append_nil]
  | cons e es ih =>
      obtain ⟨u, hstep, hrest⟩ := Runs.run_cons.mp hrun
      rw [undisturbed, hstep, Bool.and_eq_true, Bool.not_eq_true'] at hcalm
      have hnext := ih (h.step hcalm.1 hstep) hcalm.2 hrest
      rw [List.append_assoc] at hnext
      rwa [messages_cons]

end Attends

theorem attends_start (limiter : Limiter) (feed : Feed.Client)
    (releaseOnIdle : Bool) :
    (start limiter feed releaseOnIdle).Attends n [] where
  absent _ := rfl
  line l hl := by simp [start] at hl
  spared r phase hr := by cases hr

/-- What becomes of a message: it is carried out or answered. -/
structure Handled (payload : Bytes) (h h' : Hub) (l l' : Line) : Prop where
  received : h'.metrics.messagesReceived = h.metrics.messagesReceived + 1
  refused_iff : (∃ f, (Visit.act l.client payload h).2 = .error f) ↔
    Command.Rejected payload
  /-- Registry and feed stay as they are, an error is counted, and the reader
  has an answer to queue. -/
  answered : Command.Rejected payload →
    ∃ f text, Command.rejection payload = some f ∧
    h' = { h with metrics := h.metrics.received.failed } ∧
    l' = { l with reply := .unsent (errorFrame f l.client) } ∧
    Json.decode (Json.record .loose Report.members) {}
      (errorFrame f l.client) =
        some ⟨utf8 "error", 1002, text, Utf8.repair l.client⟩
  /-- The connection stays as it is, and the hub is as after the call. -/
  carriedOut : ¬Command.Rejected payload → l' = l ∧
    ∃ (r : Request) (hub : Hub),
    Request.decode? payload = some r ∧
    (r.kind = utf8 "subscribe" ∧ hub = (h.subscribe l.client r.symbol).1 ∨
      r.kind = utf8 "unsubscribe" ∧
      hub = (h.unsubscribe l.client r.symbol).1) ∧
    h' = { hub with metrics := h.metrics.received }

theorem refused_iff (client payload : Bytes) (h : Hub) :
    (∃ f, (Visit.act client payload h).2 = .error f) ↔
      Command.Rejected payload := by
  rw [Command.rejected_iff]
  constructor
  · rintro ⟨f, hf⟩
    cases hrejection : Command.rejection payload with
    | some f => exact ⟨f, rfl⟩
    | none =>
        obtain ⟨r, calls, -, -, ⟨-, hact⟩ | ⟨-, hact⟩⟩ :=
          Visit.exists_call_of_accepted client h hrejection
        · rw [hact] at hf
          cases hf
        · rw [hact] at hf
          cases hf
  · rintro ⟨f, hf⟩
    exact ⟨f, by rw [Visit.act_of_rejection client h hf]⟩

theorem handled_of_read {payload : Bytes}
    (hstep : w.step queueSize (.read n payload) = some w') :
    ∃ l l', w.lines[n]? = some l ∧ w'.lines[n]? = some l' ∧
      Handled payload w.hub w'.hub l l' := by
  obtain ⟨l, hl, -, ⟨f, hf, rfl⟩ | ⟨hnone, r, hub, hread, -, hcall, rfl⟩⟩ :=
    read_cases hstep
  · have hrejected : Command.Rejected payload :=
      Command.rejected_iff.mpr ⟨f, hf⟩
    refine ⟨l, _, hl, lines_set_self hl _, rfl,
      refused_iff l.client payload w.hub, fun _ => ?_, fun haccepted =>
      absurd hrejected haccepted⟩
    have hdecode := decode_errorFrame f l.client
    rw [Command.code_of_rejection hf] at hdecode
    exact ⟨f, _, hf, rfl, rfl, hdecode⟩
  · have haccepted : ¬Command.Rejected payload := by
      rw [Command.rejected_iff, hnone]
      rintro ⟨f, hf⟩
      cases hf
    exact ⟨l, l, hl, hl, rfl, refused_iff l.client payload w.hub,
      fun hrejected => absurd hrejected haccepted, fun _ =>
      ⟨rfl, r, hub, hread, hcall, rfl⟩⟩

/-- An answer is queued when the session was open and there is room. -/
theorem exists_queued (queueSize : Int64) {payloads : List Bytes} {l : Line}
    (hl : w.lines[n]? = some l) (hattends : l.Attends payloads)
    (hroom : l.isFull = false) {frame : Bytes}
    (hreply : l.reply = .asked frame) :
    ∃ l', w.step queueSize (.answer n) = some { w with
      lines := w.lines.set n l' } ∧
      l'.notices = Command.answers l.client payloads := by
  have hfits : l.session.queue.length < l.session.capacity :=
    Nat.lt_of_not_le (of_decide_eq_false hroom)
  have hanswer :
      l.answer = some { l.withSession { l.session with
        queue := l.session.queue ++ [frame] } with
        reply := .nothing, accepted := l.accepted ++ [.notice frame] } := by
    simp only [Line.answer, hreply, Session.enqueue, if_pos hfits]
  have hnext := (hattends.answer (fun _ => hroom) hanswer).answers
  rw [Reply.pending, List.append_nil] at hnext
  exact ⟨_, onLine_eq hl hanswer, hnext⟩

/-- A reader that goes on, while there is room, has no answer in its hand after
two steps at most. -/
theorem exists_settled (queueSize : Int64) {payloads : List Bytes} {l : Line}
    (hl : w.lines[n]? = some l) (hattends : l.Attends payloads)
    (hroom : l.isFull = false) :
    ∃ k ≤ 2, ∃ (u : Broadcast) (l' : Line),
      Runs.run (step queueSize) w (List.replicate k (.answer n)) = some u ∧
      u.lines[n]? = some l' ∧
      l'.notices = Command.answers l.client payloads := by
  cases hreply : l.reply with
  | nothing =>
      have hanswers := hattends.answers
      rw [hreply, Reply.pending, List.append_nil] at hanswers
      exact ⟨0, by omega, w, l, rfl, hl, hanswers⟩
  | asked frame =>
      obtain ⟨l', hstep, hnotices⟩ :=
        exists_queued queueSize hl hattends hroom hreply
      exact ⟨1, by omega, _, l', Runs.run_cons.mpr ⟨_, hstep, rfl⟩,
        lines_set_self hl l', hnotices⟩
  | unsent frame =>
      have hanswer : l.answer = some { l with reply := .asked frame } := by
        simp only [Line.answer, hreply, if_pos hattends.isOpen]
      let asked : Broadcast := { w with
        lines := w.lines.set n { l with reply := .asked frame } }
      have hfirst : w.step queueSize (.answer n) = some asked :=
        onLine_eq hl hanswer
      have hasked : asked.lines[n]? = some { l with reply := .asked frame } :=
        lines_set_self hl _
      obtain ⟨l', hstep, hnotices⟩ := exists_queued queueSize hasked
        (hattends.answer (fun _ => hroom) hanswer) hroom rfl
      exact ⟨2, by omega, _, l',
        Runs.run_cons.mpr ⟨_, hfirst, Runs.run_cons.mpr ⟨_, hstep, rfl⟩⟩,
        lines_set_self hasked l', hnotices⟩

/-- In every history in which nothing disturbs a connection, each message of
its client is carried out or answered, the answers are queued in the order of
the messages, and the session stays open and is read. -/
theorem commands_answered {limiter : Limiter} {feed : Feed.Client}
    {releaseOnIdle : Bool} {es : List Event}
    (hcalm : (start limiter feed releaseOnIdle).undisturbed queueSize n es =
      true)
    (hrun : Runs.run (step queueSize) (start limiter feed releaseOnIdle) es =
      some w) :
    (∀ before payload after, es = before ++ .read n payload :: after →
      ∃ u u' l l',
        Runs.run (step queueSize) (start limiter feed releaseOnIdle) before =
          some u ∧
        u.step queueSize (.read n payload) = some u' ∧
        u.lines[n]? = some l ∧ u'.lines[n]? = some l' ∧
        Handled payload u.hub u'.hub l l') ∧
    (∀ l, w.lines[n]? = some l → l.Attends (messages n es) ∧ l.Ordered ∧
      (l.isFull = false → ∃ k ≤ 2, ∃ (u : Broadcast) (l' : Line),
        Runs.run (step queueSize) w (List.replicate k (.answer n)) = some u ∧
        u.lines[n]? = some l' ∧
        l'.notices = Command.answers l.client (messages n es))) := by
  constructor
  · rintro before payload after rfl
    obtain ⟨u, hbefore, hrest⟩ := Runs.run_append.mp hrun
    obtain ⟨u', hread, -⟩ := Runs.run_cons.mp hrest
    obtain ⟨l, l', hl, hl', hhandled⟩ := handled_of_read hread
    exact ⟨u, u', l, l', hbefore, hread, hl, hl', hhandled⟩
  · intro l hl
    have hattends := (attends_start limiter feed releaseOnIdle).run hcalm hrun
    have hfaithful : w.Faithful queueSize :=
      Runs.run_invariant (fun _ _ _ hs hstep => hs.step hstep)
        (faithful_start limiter feed releaseOnIdle) hrun
    exact ⟨hattends.line l hl, (hfaithful.served n l hl).ordered,
      exists_settled queueSize hl (hattends.line l hl)⟩

/-- A client with room for two frames sends no command, a symbol of blanks and
a subscription. A tick comes while the second answer is in the reader's
hand. -/
def dialogue : List Event :=
  let blank : Bytes := utf8 "\x7b\"type\":\"subscribe\",\"symbol\":\" \"\x7d"
  let subscribe : Bytes :=
    utf8 "\x7b\"type\":\"subscribe\",\"symbol\":\"btc\"\x7d"
  [.arrive ⟨0⟩ (utf8 "c"), .read 0 subscribe, .read 0 (utf8 "null"),
    .answer 0, .answer 0,
    .read 0 blank, .dispatch (tickAt "1"), .answer 0, .look (utf8 "c"),
    .advance, .advance, .take 0,
    .answer 0, .advance, .finish .zero]

def quietStart : Broadcast := start { window := 60, max := 5 } {} false

theorem commands_answered_of_dialogue :
    ∃ w l, Runs.run (step 2) quietStart dialogue = some w ∧
      quietStart.undisturbed 2 0 dialogue = true ∧
      w.lines[0]? = some l ∧ l.Attends (messages 0 dialogue) ∧
      l.notices.length = 2 ∧ l.ticks.length = 1 ∧
      w.hub.metrics.messagesReceived = 3 ∧ w.hub.metrics.errors = 2 := by
  have hcalm : quietStart.undisturbed 2 0 dialogue = true := by decide +kernel
  obtain ⟨w, hrun⟩ : ∃ w, Runs.run (step 2) quietStart dialogue = some w :=
    Option.isSome_iff_exists.mp (by decide +kernel)
  have hfacts :
      (Runs.run (step 2) quietStart dialogue).bind (fun w =>
        w.lines[0]?.map fun l => (l.notices.length, l.ticks.length,
          w.hub.metrics.messagesReceived, w.hub.metrics.errors)) =
      some (2, 1, 3, 2) := by
    decide +kernel
  rw [hrun, Option.bind_some] at hfacts
  obtain ⟨l, hl, hcounts⟩ := Option.map_eq_some_iff.mp hfacts
  simp only [Prod.mk.injEq] at hcounts
  obtain ⟨hnotices, hticks, hreceived, herrors⟩ := hcounts
  exact ⟨w, l, hrun, hcalm, hl, ((commands_answered hcalm hrun).2 l hl).1,
    hnotices, hticks, hreceived, herrors⟩

end Broadcast

end Server
end TickRelay
