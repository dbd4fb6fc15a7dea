import TickRelay.Proofs.DeliveryCalls
import Mathlib.Data.List.DropRight
import Mathlib.Data.List.Perm.Basic
import Mathlib.Logic.Function.Iterate

/-!
# What a dispatch does, in whatever order

A tick is offered to the subscribers of its symbol one after the other, in an
order that nobody fixes. Each offer depends on the session of the connection
and changes it, and is counted.

**Input.** A hub, the sessions of all connections, a tick, and the subscribers
of its symbol in some order. Any connection may be stored for any client, also
for several.

**Algorithm.** `Floor.offer` is one offer, `Floor.serve` the offers to some
clients in turn, with a log of them, and `Floor.dispatch` the whole.

**Results.** `Session.served_after` says what a session answers to a frame that
is offered several times, and what it holds then. `subjects_serve`,
`outcomes_serve` and `sessions_serve` say what each connection was offered,
what it answered and what became of its session; `offer_comm`: two offers may
change places. `dispatch_exact` puts this together for every order of the
subscribers, and `hub_dispatch` says that `Hub.dispatch` takes one of them when
each subscriber has a connection of its own.
-/

namespace TickRelay

namespace Metrics

theorem offered_comm (m : Metrics) (e e' : Option SendError) :
    (m.offered e).offered e' = (m.offered e').offered e := by
  rcases e with _ | _ | _ <;> rcases e' with _ | _ | _ <;> rfl

end Metrics

namespace Session

variable {s : Session} {frame : Bytes}

/-- What a session answers when it is offered a frame so many times. -/
def replies (frame : Bytes) (s : Session) : Nat → List (Option SendError)
  | 0 => []
  | k + 1 => (s.send frame).2 :: replies frame (s.offered frame) k

/-- The session after it was offered a frame so many times. -/
def after (frame : Bytes) (s : Session) (k : Nat) : Session :=
  (fun s => s.offered frame)^[k] s

theorem after_succ (k : Nat) :
    s.after frame (k + 1) = (s.offered frame).after frame k := rfl

/-- What comes of one offer: the frame waits in the queue if there is room, a
session without room is closed, and one that is closed stays as it is. -/
inductive Answers (frame : Bytes) (s : Session) :
    Option SendError → Session → Prop
  | taken (hopen : s.isOpen = true) (hroom : s.queue.length < s.capacity) :
      Answers frame s none { s with queue := s.queue ++ [frame] }
  | full (hopen : s.isOpen = true) (hfull : s.capacity ≤ s.queue.length) :
      Answers frame s (some .full)
        { s with isOpen := false, socketCloses := s.socketCloses + 1 }
  | closed (hclosed : s.isOpen = false) : Answers frame s (some .closed) s

theorem answers_offered (s : Session) (frame : Bytes) :
    s.Answers frame (s.send frame).2 (s.offered frame) := by
  cases hopen : s.isOpen with
  | false =>
      obtain ⟨hsend, hoffered⟩ := offered_of_closed frame hopen
      rw [hsend, hoffered]
      exact .closed hopen
  | true =>
      by_cases hroom : s.queue.length < s.capacity
      · obtain ⟨hsend, hoffered⟩ := offered_of_room frame hopen hroom
        rw [hsend, hoffered]
        exact .taken hopen hroom
      · obtain ⟨hsend, hoffered⟩ := offered_of_full frame hopen hroom
        rw [hsend, hoffered, close, if_pos hopen]
        exact .full hopen (Nat.le_of_not_lt hroom)

/-- The answers to so many offers: the frame is taken while there is room,
then refused once, and then the session is closed. -/
def verdicts (s : Session) (k : Nat) : List (Option SendError) :=
  let first : List (Option SendError) :=
    if s.isOpen then
      List.replicate (s.capacity - s.queue.length) none ++ [some .full]
    else []
  (first ++ List.replicate k (some SendError.closed)).take k

theorem verdicts_closed (h : s.isOpen = false) (k : Nat) :
    s.verdicts k = List.replicate k (some .closed) := by
  simp [verdicts, h]

/-- It does not matter how often closed is said beyond the last offer. -/
theorem take_fill {α : Type} (l : List α) (x : α) (k : Nat) :
    (l ++ List.replicate (k + 1) x).take k =
      (l ++ List.replicate k x).take k := by
  rw [List.replicate_succ', ← List.append_assoc,
    List.take_append_of_le_length (by simp)]

/-- The first answer is that of one offer, the others are those of the session
that it leaves. -/
theorem Answers.verdicts {e : Option SendError} {s' : Session}
    (h : s.Answers frame e s') (k : Nat) :
    s.verdicts (k + 1) = e :: s'.verdicts k := by
  cases h with
  | taken hopen hroom =>
      have hlonger : s.capacity - s.queue.length =
          s.capacity - (s.queue.length + 1) + 1 := by omega
      simp only [Session.verdicts, hopen, if_true, hlonger,
        List.length_append, List.length_singleton, List.replicate_succ,
        List.cons_append, List.take_succ_cons]
      rw [← List.replicate_succ, take_fill]
  | full hopen hfull =>
      simp [Session.verdicts, hopen, Nat.sub_eq_zero_of_le hfull]
  | closed hclosed =>
      rw [verdicts_closed hclosed, verdicts_closed hclosed,
        List.replicate_succ]

/-- What comes of several offers of one frame. -/
structure Served (frame : Bytes) (s : Session) (k : Nat)
    (answers : List (Option SendError)) (s' : Session) : Prop where
  answers_eq : answers = s.verdicts k
  /-- The frame waits as often as it was taken. -/
  queue : s'.queue = s.queue ++ List.replicate (answers.count none) frame
  isOpen : s'.isOpen = true ↔ s.isOpen = true ∧ some .full ∉ answers
  socketCloses : s'.socketCloses = s.socketCloses + answers.count (some .full)
  id : s'.id = s.id
  capacity : s'.capacity = s.capacity

/-- A session is closed by offers exactly if there was no room for one. -/
theorem Served.closed_iff {k : Nat} {answers : List (Option SendError)}
    {s' : Session} (h : s.Served frame k answers s') :
    (s.isOpen = true ∧ s'.isOpen = false) ↔ some .full ∈ answers := by
  rw [← Bool.not_eq_true, h.isOpen]
  constructor
  · rintro ⟨hopen, hnot⟩
    by_contra hfull
    exact hnot ⟨hopen, hfull⟩
  · intro hfull
    refine ⟨?_, fun hboth => hboth.2 hfull⟩
    by_contra hclosed
    rw [h.answers_eq, verdicts_closed (Bool.eq_false_iff.mpr hclosed)] at hfull
    cases (List.mem_replicate.mp hfull).2

theorem Answers.served {e : Option SendError} {s₁ s' : Session} {k : Nat}
    {answers : List (Option SendError)} (h : s.Answers frame e s₁)
    (hrest : s₁.Served frame k answers s') :
    s.Served frame (k + 1) (e :: answers) s' := by
  obtain ⟨hanswers, hqueue, hopen', hcloses, hid, hcapacity⟩ := hrest
  have hverdicts := h.verdicts k
  rw [← hanswers] at hverdicts
  cases h with
  | taken hopen hroom =>
      refine ⟨hverdicts.symm, ?_, ?_, ?_, hid, hcapacity⟩
      · rw [hqueue, List.count_cons_self, List.replicate_succ,
          List.append_assoc, List.singleton_append]
      · simpa [hopen] using hopen'
      · rw [hcloses, List.count_cons_of_ne (by decide)]
  | full hopen hfull =>
      refine ⟨hverdicts.symm, ?_, ?_, ?_, hid, hcapacity⟩
      · rw [hqueue, List.count_cons_of_ne (by decide)]
      · simpa using hopen'
      · rw [hcloses, List.count_cons_self]
        exact Nat.add_right_comm s.socketCloses 1 _
  | closed hclosed =>
      refine ⟨hverdicts.symm, ?_, ?_, ?_, hid, hcapacity⟩
      · rw [hqueue, List.count_cons_of_ne (by decide)]
      · simpa [hclosed] using hopen'
      · rw [hcloses, List.count_cons_of_ne (by decide)]

theorem served_after (frame : Bytes) (s : Session) (k : Nat) :
    s.Served frame k (s.replies frame k) (s.after frame k) := by
  induction k generalizing s with
  | zero => exact ⟨rfl, by simp [replies, after], by simp [replies, after],
      rfl, rfl, rfl⟩
  | succ k ih => exact (s.answers_offered frame).served (ih (s.offered frame))

end Session

/-- The hub and the sessions of the connections. -/
structure Floor where
  hub : Hub
  sessions : Connection → Session

/-- A frame that was offered to the connection of a client, and what came of
it. -/
structure Offer where
  client : Bytes
  conn : Connection
  frame : Bytes
  outcome : Option SendError
  deriving DecidableEq

namespace Offer

def isTaken (o : Offer) : Bool := o.outcome = none

/-- The frame was refused for another reason than that the connection is
closed. -/
def isFault (o : Offer) : Bool := o.outcome ≠ none ∧ o.outcome ≠ some .closed

theorem isFault_iff {o : Offer} :
    o.isFault = true ↔ o.outcome = some .full := by
  obtain ⟨id, c, frame, _ | _ | _⟩ := o <;> simp [isFault]

/-- Who was offered what. -/
def subject (o : Offer) : Bytes × Connection × Bytes :=
  (o.client, o.conn, o.frame)

/-- The offer in a report. -/
def entry (o : Offer) : Connection × Option SendError := (o.conn, o.outcome)

end Offer

namespace Floor

/-- A connection is offered a frame. What comes of it is counted, and a session
without room is closed. -/
def offer (frame : Bytes) (f : Floor) (c : Connection) : Floor where
  hub := { f.hub with
    metrics := f.hub.metrics.offered ((f.sessions c).send frame).2 }
  sessions := Function.update f.sessions c ((f.sessions c).offered frame)

/-- The stored connections of some clients are offered a frame, one after the
other. -/
def serve (frame : Bytes) (f : Floor) : List Bytes → Floor × List Offer
  | [] => (f, [])
  | id :: ids =>
    match f.hub.pool.get? id with
    | none => f.serve frame ids
    | some c =>
      let (g, offers) := (f.offer frame c).serve frame ids
      (g, ⟨id, c, frame, ((f.sessions c).send frame).2⟩ :: offers)

/-- The time that the offers took is a sample. -/
def timed (latency : Binary64) (f : Floor) : Floor :=
  { f with hub := { f.hub with metrics := f.hub.metrics.record latency } }

/-- A tick is dispatched to the subscribers of its symbol in some order. -/
def dispatch (ids : List Bytes) (latency : Binary64) (t : Tick) (f : Floor) :
    Floor × List Offer :=
  if ids.isEmpty then (f, [])
  else match t.encode? with
    | none =>
        ({ f with hub := { f.hub with metrics := f.hub.metrics.failed } }, [])
    | some frame =>
      let (g, offers) := f.serve frame ids
      (g.timed latency, offers)

/-- What a connection answers when it is offered a frame. -/
def answer (f : Floor) (c : Connection) (frame : Bytes) : Option SendError :=
  ((f.sessions c).send frame).2

/-- The stored connections of some clients. -/
def targets (f : Floor) (ids : List Bytes) : List Connection :=
  ids.filterMap f.hub.pool.get?

variable {f : Floor} {frame : Bytes} {ids ids' : List Bytes} {id : Bytes}
  {c : Connection}

section Serve

theorem targets_none (h : f.hub.pool.get? id = none) :
    f.targets (id :: ids) = f.targets ids :=
  List.filterMap_cons_none h

theorem targets_some (frame : Bytes) (h : f.hub.pool.get? id = some c) :
    f.targets (id :: ids) = c :: (f.offer frame c).targets ids :=
  List.filterMap_cons_some h

theorem serve_none (h : f.hub.pool.get? id = none) :
    f.serve frame (id :: ids) = f.serve frame ids := by
  rw [serve, h]

theorem serve_some (h : f.hub.pool.get? id = some c) :
    f.serve frame (id :: ids) =
      (((f.offer frame c).serve frame ids).1,
        ⟨id, c, frame, f.answer c frame⟩ ::
        ((f.offer frame c).serve frame ids).2) := by
  rw [serve, h]
  rfl

theorem floor_serve :
    (f.serve frame ids).1 = (f.targets ids).foldl (offer frame) f := by
  induction ids generalizing f with
  | nil => rfl
  | cons id ids ih =>
      cases h : f.hub.pool.get? id with
      | none => rw [serve_none h, targets_none h, ih]
      | some c => rw [serve_some h, targets_some frame h, ih, List.foldl_cons]

theorem sessions_offer_self (f : Floor) (frame : Bytes) (c : Connection) :
    (f.offer frame c).sessions c = (f.sessions c).offered frame :=
  Function.update_self ..

theorem sessions_offer_of_ne (f : Floor) (frame : Bytes) {c d : Connection}
    (hne : c ≠ d) : (f.offer frame c).sessions d = f.sessions d :=
  Function.update_of_ne (Ne.symm hne) ..

/-- A session was offered the frame as often as its connection is stored for
one of the clients. -/
theorem sessions_serve (c : Connection) :
    (f.serve frame ids).1.sessions c =
      (f.sessions c).after frame ((f.targets ids).count c) := by
  rw [floor_serve]
  generalize f.targets ids = cs
  induction cs generalizing f with
  | nil => rfl
  | cons d cs ih =>
      rw [List.foldl_cons, ih]
      by_cases hd : d = c
      · subst hd
        rw [sessions_offer_self, List.count_cons_self, Session.after_succ]
      · rw [sessions_offer_of_ne f frame hd, List.count_cons_of_ne hd]

/-- It answered as it does when it is offered the frame so often. -/
theorem outcomes_serve (c : Connection) :
    ((f.serve frame ids).2.filter (·.conn = c)).map Offer.outcome =
      (f.sessions c).replies frame ((f.targets ids).count c) := by
  induction ids generalizing f with
  | nil => rfl
  | cons id ids ih =>
      cases h : f.hub.pool.get? id with
      | none => rw [serve_none h, targets_none h, ih]
      | some d =>
          rw [serve_some h, targets_some frame h, List.filter_cons]
          by_cases hd : d = c
          · subst hd
            rw [if_pos (decide_eq_true rfl), List.map_cons, ih,
              sessions_offer_self, List.count_cons_self]
            rfl
          · rw [if_neg (by simpa using hd), ih,
              sessions_offer_of_ne f frame hd, List.count_cons_of_ne hd]

/-- The offers are those of the frame to the stored connections, in turn. -/
theorem subjects_serve :
    (f.serve frame ids).2.map Offer.subject = ids.filterMap fun id =>
      (f.hub.pool.get? id).map fun c => (id, c, frame) := by
  induction ids generalizing f with
  | nil => rfl
  | cons id ids ih =>
      cases h : f.hub.pool.get? id with
      | none =>
          rw [serve_none h, ih, List.filterMap_cons_none (by rw [h]; rfl)]
      | some c =>
          rw [serve_some h, List.map_cons, ih,
            List.filterMap_cons_some (by rw [h]; rfl)]
          rfl

theorem mem_serve {o : Offer} (ho : o ∈ (f.serve frame ids).2) :
    o.client ∈ ids ∧ f.hub.pool.get? o.client = some o.conn := by
  have hsubject := List.mem_map_of_mem (f := Offer.subject) ho
  rw [subjects_serve] at hsubject
  obtain ⟨id, hid, hstored⟩ := List.mem_filterMap.mp hsubject
  obtain ⟨c, hc, heq⟩ := Option.map_eq_some_iff.mp hstored
  cases heq
  exact ⟨hid, hc⟩

/-- The stored connection of a client is offered the frame once for it. -/
theorem offers_for_client (hnodup : ids.Nodup) (hid : id ∈ ids)
    (hstored : f.hub.pool.get? id = some c) :
    ∃ e, (f.serve frame ids).2.filter (·.client = id) =
      [⟨id, c, frame, e⟩] := by
  induction ids generalizing f with
  | nil => cases hid
  | cons other ids ih =>
      obtain ⟨hother, hrest⟩ := List.nodup_cons.mp hnodup
      rcases List.mem_cons.mp hid with rfl | hmem
      · -- the offers that follow are for the others
        refine ⟨f.answer c frame, ?_⟩
        rw [serve_some hstored, List.filter_cons, if_pos (decide_eq_true rfl),
          List.cons_eq_cons, List.filter_eq_nil_iff]
        refine ⟨rfl, fun o ho hclient => hother ?_⟩
        exact of_decide_eq_true hclient ▸ (mem_serve ho).1
      · have hne : other ≠ id := fun heq => hother (heq ▸ hmem)
        cases h : f.hub.pool.get? other with
        | none =>
            rw [serve_none h]
            exact ih hrest hmem hstored
        | some d =>
            rw [serve_some h, List.filter_cons, if_neg (by simpa using hne)]
            exact ih hrest hmem hstored

/-- Beside the counters the hub stays as it is, and these count the offers. -/
theorem hub_serve :
    (f.serve frame ids).1.hub = { f.hub with
      metrics := (f.serve frame ids).2.foldl (fun m o => m.offered o.outcome)
          f.hub.metrics } := by
  induction ids generalizing f with
  | nil => rfl
  | cons id ids ih =>
      cases h : f.hub.pool.get? id with
      | none => rw [serve_none h, ih]
      | some c => rw [serve_some h, ih]; rfl

end Serve

theorem dispatch_nil (latency : Binary64) (t : Tick) :
    f.dispatch [] latency t = (f, []) := rfl

theorem dispatch_unwritable (latency : Binary64) {t : Tick} (hids : ids ≠ [])
    (ht : t.encode? = none) :
    f.dispatch ids latency t =
      ({ f with
        hub := { f.hub with metrics := f.hub.metrics.failed } }, []) := by
  rw [dispatch, if_neg (by simpa using hids), ht]

theorem dispatch_writable (latency : Binary64) {t : Tick} (hids : ids ≠ [])
    (ht : t.encode? = some frame) :
    f.dispatch ids latency t =
      ((f.serve frame ids).1.timed latency, (f.serve frame ids).2) := by
  rw [dispatch, if_neg (by simpa using hids), ht]

section Orders

/-- Two offers may change places: they concern different sessions, or are the
same. -/
theorem offer_comm (f : Floor) (c d : Connection) :
    (f.offer frame c).offer frame d = (f.offer frame d).offer frame c := by
  by_cases hne : c = d
  · rw [hne]
  · simp only [offer, Function.update_of_ne hne,
      Function.update_of_ne (Ne.symm hne)]
    rw [Metrics.offered_comm, Function.update_comm hne]

theorem floor_serve_of_perm (h : ids.Perm ids') :
    (f.serve frame ids).1 = (f.serve frame ids').1 := by
  rw [floor_serve, floor_serve]
  exact (h.filterMap f.hub.pool.get?).foldl_eq'
    (fun c _ d _ g => offer_comm g c d) f

/-- What the connections answer is the same in every order, also for one that
gets several offers. -/
theorem entries_serve_of_perm (h : ids.Perm ids') :
    ((f.serve frame ids).2.map Offer.entry).Perm
        ((f.serve frame ids').2.map Offer.entry) := by
  rw [List.perm_iff_count]
  rintro ⟨c, e⟩
  have hcount : ∀ ids, ((f.serve frame ids).2.map Offer.entry).count (c, e) =
      ((f.sessions c).replies frame ((f.targets ids).count c)).count e := by
    intro ids
    rw [← outcomes_serve, List.count, List.count, List.countP_map,
      List.countP_map, List.countP_filter]
    refine List.countP_congr fun o _ => ?_
    simp [Offer.entry, and_comm]
  rw [hcount, hcount, targets, targets, (h.filterMap f.hub.pool.get?).count_eq]

theorem dispatch_of_perm (h : ids.Perm ids') (latency : Binary64) (t : Tick) :
    (f.dispatch ids latency t).1 = (f.dispatch ids' latency t).1 ∧
      ((f.dispatch ids latency t).2.map Offer.entry).Perm
        ((f.dispatch ids' latency t).2.map Offer.entry) := by
  by_cases hids : ids = []
  · rw [hids] at h ⊢
    rw [h.nil_eq]
    exact ⟨rfl, .refl _⟩
  have hids' : ids' ≠ [] := fun hnil => hids (hnil ▸ h).eq_nil
  cases ht : t.encode? with
  | none =>
      rw [dispatch_unwritable latency hids ht,
        dispatch_unwritable latency hids' ht]
      exact ⟨rfl, .refl _⟩
  | some frame =>
      rw [dispatch_writable latency hids ht,
        dispatch_writable latency hids' ht]
      exact ⟨congrArg (timed latency) (floor_serve_of_perm h),
        entries_serve_of_perm h⟩

end Orders

section Counters

/-- The counters after some offers. -/
theorem foldl_offered (offers : List Offer) (m : Metrics) :
    offers.foldl (fun m o => m.offered o.outcome) m =
      (m.sent (offers.countP Offer.isTaken)).failed
        (offers.countP Offer.isFault) := by
  have htaken : (Dispatch.Report.delivered (offers.map Offer.entry)).length =
      offers.countP Offer.isTaken := by
    rw [Dispatch.Report.delivered, List.length_filterMap_eq_countP,
      List.countP_map]
    refine List.countP_congr fun o _ => ?_
    obtain ⟨id, c, frame, _ | _ | _⟩ := o <;> simp [Offer.entry, Offer.isTaken]
  have hfault : (Dispatch.Report.slow (offers.map Offer.entry)).length =
      offers.countP Offer.isFault := by
    rw [Dispatch.Report.slow, List.length_filterMap_eq_countP, List.countP_map]
    refine List.countP_congr fun o _ => ?_
    obtain ⟨id, c, frame, _ | _ | _⟩ := o <;> simp [Offer.entry, Offer.isFault]
  have hfold := Dispatch.Report.foldl_offered (offers.map Offer.entry) m
  rw [List.foldl_map, htaken, hfault] at hfold
  exact hfold

end Counters

/-- Some clients in some order, each once. -/
structure Enumerates (ids clients : List Bytes) : Prop where
  nodup : ids.Nodup
  mem : ∀ id, id ∈ ids ↔ id ∈ clients

theorem Enumerates.perm {clients : List Bytes} (h : Enumerates ids clients)
    (h' : Enumerates ids' clients) : ids.Perm ids' :=
  (List.perm_ext_iff_of_nodup h.nodup h'.nodup).mpr fun id =>
    (h.mem id).trans (h'.mem id).symm

/-- No connection is stored for two of the clients. -/
def Unshared (f : Floor) (clients : List Bytes) : Prop :=
  ∀ id ∈ clients, ∀ other ∈ clients, ∀ c,
    f.hub.pool.get? id = some c → f.hub.pool.get? other = some c → other = id

section Single

theorem count_targets (c : Connection) :
    (f.targets ids).count c = ids.countP fun id =>
      f.hub.pool.get? id = some c := by
  rw [targets, List.count_filterMap]
  exact List.countP_congr fun id _ => by simp

/-- A connection that is stored for one of the clients only. -/
theorem count_targets_single (hnodup : ids.Nodup) (hid : id ∈ ids)
    (hstored : f.hub.pool.get? id = some c)
    (honly : ∀ other ∈ ids, f.hub.pool.get? other = some c → other = id) :
    (f.targets ids).count c = 1 := by
  rw [count_targets, ← List.count_eq_one_of_mem hnodup hid, List.count]
  refine List.countP_congr fun other hother => ?_
  simp only [decide_eq_true_eq, beq_iff_eq]
  exact ⟨honly other hother, fun heq => heq ▸ hstored⟩

theorem count_targets_none
    (hstored : ∀ id ∈ ids, f.hub.pool.get? id ≠ some c) :
    (f.targets ids).count c = 0 := by
  rw [count_targets, List.countP_eq_zero]
  exact fun id hid heq => hstored id hid (of_decide_eq_true heq)

theorem nodup_targets (hnodup : ids.Nodup) (hunshared : f.Unshared ids) :
    (f.targets ids).Nodup := by
  rw [List.nodup_iff_count_le_one]
  intro c
  by_cases hstored : ∀ id ∈ ids, f.hub.pool.get? id ≠ some c
  · rw [count_targets_none hstored]
    exact Nat.zero_le 1
  · push Not at hstored
    obtain ⟨id, hid, hc⟩ := hstored
    exact Nat.le_of_eq
      (count_targets_single hnodup hid hc fun other hother =>
        hunshared id hid other hother c hc)

/-- When no connection gets two offers, each answers as it would have at the
start. -/
theorem entries_serve (h : (f.targets ids).Nodup) :
    (f.serve frame ids).2.map Offer.entry = (f.targets ids).map fun c =>
      (c, f.answer c frame) := by
  induction ids generalizing f with
  | nil => rfl
  | cons id ids ih =>
      cases hstored : f.hub.pool.get? id with
      | none =>
          rw [targets_none hstored] at h ⊢
          rw [serve_none hstored, ih h]
      | some c =>
          rw [targets_some frame hstored] at h ⊢
          obtain ⟨hc, hrest⟩ := List.nodup_cons.mp h
          rw [serve_some hstored, List.map_cons, List.map_cons, ih hrest]
          refine congrArg (_ :: ·) (List.map_congr_left fun d hd => ?_)
          have hne : c ≠ d := fun heq => hc (heq ▸ hd)
          rw [answer, sessions_offer_of_ne f frame hne]
          rfl

end Single

/-- What a frame that is offered to the stored connections of some clients
brings about. -/
structure Delivers (f : Floor) (ids : List Bytes) (frame : Bytes)
    (latency : Binary64) (out : Floor × List Offer) : Prop where
  /-- The offers in turn: one for every client with a stored connection, and
  no other. -/
  subjects : out.2.map Offer.subject =
    ids.filterMap fun id => (f.hub.pool.get? id).map fun c => (id, c, frame)
  once : ∀ id ∈ ids, ∀ c, f.hub.pool.get? id = some c →
    ∃ e, out.2.filter (·.client = id) = [⟨id, c, frame, e⟩]
  /-- No other connection is touched. -/
  others : ∀ c, (∀ id ∈ ids, f.hub.pool.get? id ≠ some c) →
    (∀ o ∈ out.2, o.conn ≠ c) ∧ out.1.sessions c = f.sessions c
  /-- A connection that is stored for one of the clients gets one offer. -/
  alone : ∀ id ∈ ids, ∀ c, f.hub.pool.get? id = some c →
    (∀ other ∈ ids, f.hub.pool.get? other = some c → other = id) →
    ∃ e, out.2.filter (·.conn = c) = [⟨id, c, frame, e⟩] ∧
      (f.sessions c).Answers frame e (out.1.sessions c)
  /-- One that is stored for several clients gets as many. -/
  shared : ∀ c k, ids.countP (fun id => f.hub.pool.get? id = some c) = k →
    (f.sessions c).Served frame k
      ((out.2.filter (·.conn = c)).map Offer.outcome) (out.1.sessions c)
  /-- The offers that were taken are counted. -/
  messagesSent : out.1.hub.metrics.messagesSent =
    f.hub.metrics.messagesSent + out.2.countP Offer.isTaken
  /-- So are those that failed, unless because the connection was closed. -/
  errors : out.1.hub.metrics.errors =
    f.hub.metrics.errors + out.2.countP Offer.isFault
  /-- One sample is recorded, and the last thousand are kept. -/
  latency : out.1.hub.metrics.latency =
    (f.hub.metrics.latency ++ [latency]).rtake 1000
  activeConnections :
    out.1.hub.metrics.activeConnections = f.hub.metrics.activeConnections
  messagesReceived :
    out.1.hub.metrics.messagesReceived = f.hub.metrics.messagesReceived
  /-- Beside the counters and the samples the hub stays as it is. -/
  hub : out.1.hub = { f.hub with metrics := out.1.hub.metrics }
  /-- Closed are the connections with an offer that failed, unless it failed
  because they were closed. -/
  closed : ∀ c,
    ((f.sessions c).isOpen = true ∧ (out.1.sessions c).isOpen = false) ↔
      ∃ o ∈ out.2, o.conn = c ∧ o.isFault = true

/-- What became of a connection and of its session. -/
theorem served_serve (f : Floor) (frame : Bytes) {c : Connection} {k : Nat}
    (h : (f.targets ids).count c = k) :
    (f.sessions c).Served frame k
      (((f.serve frame ids).2.filter (·.conn = c)).map Offer.outcome)
      ((f.serve frame ids).1.sessions c) := by
  rw [outcomes_serve, sessions_serve, h]
  exact Session.served_after frame (f.sessions c) k

/-- The offers to a connection include one without room exactly if its session
is closed by them. -/
theorem closed_serve (c : Connection) :
    ((f.sessions c).isOpen = true ∧
        ((f.serve frame ids).1.sessions c).isOpen = false) ↔
      ∃ o ∈ (f.serve frame ids).2, o.conn = c ∧ o.isFault = true := by
  rw [(f.served_serve frame rfl).closed_iff, List.mem_map]
  simp only [List.mem_filter, decide_eq_true_eq, Offer.isFault_iff, and_assoc]

/-- The offers to a connection that is stored for one client are those for
this client. -/
theorem offers_to_connection (hid : id ∈ ids)
    (hstored : f.hub.pool.get? id = some c)
    (honly : ∀ other ∈ ids, f.hub.pool.get? other = some c → other = id) :
    (f.serve frame ids).2.filter (·.conn = c) =
      (f.serve frame ids).2.filter (·.client = id) := by
  refine List.filter_congr fun o ho => ?_
  obtain ⟨hclient, hconn⟩ := mem_serve ho
  rw [decide_eq_decide]
  constructor
  · rintro rfl
    exact honly o.client hclient hconn
  · rintro rfl
    exact Option.some.inj (hconn.symm.trans hstored)

theorem alone_serve (hnodup : ids.Nodup) (hid : id ∈ ids)
    (hstored : f.hub.pool.get? id = some c)
    (honly : ∀ other ∈ ids, f.hub.pool.get? other = some c → other = id) :
    ∃ e, (f.serve frame ids).2.filter (·.conn = c) = [⟨id, c, frame, e⟩] ∧
      (f.sessions c).Answers frame e ((f.serve frame ids).1.sessions c) := by
  have hcount := count_targets_single hnodup hid hstored honly
  obtain ⟨e, hoffers⟩ :
      ∃ e, (f.serve frame ids).2.filter (·.client = id) =
        [⟨id, c, frame, e⟩] := offers_for_client hnodup hid hstored
  rw [← offers_to_connection hid hstored honly] at hoffers
  have houtcome : ((f.serve frame ids).2.filter (·.conn = c)).map
      Offer.outcome = _ := outcomes_serve c
  rw [hcount, hoffers] at houtcome
  obtain rfl : e = f.answer c frame := (List.cons.inj houtcome).1
  refine ⟨_, hoffers, ?_⟩
  rw [sessions_serve, hcount]
  exact (f.sessions c).answers_offered frame

theorem delivers_dispatch (latency : Binary64) {t : Tick} (hnodup : ids.Nodup)
    (hids : ids ≠ []) (ht : t.encode? = some frame) :
    f.Delivers ids frame latency (f.dispatch ids latency t) := by
  rw [dispatch_writable latency hids ht]
  have hhub : ((f.serve frame ids).1.timed latency).hub = { f.hub with
      metrics := ((f.hub.metrics.sent
        ((f.serve frame ids).2.countP Offer.isTaken)).failed
        ((f.serve frame ids).2.countP Offer.isFault)).record latency } := by
    rw [timed, hub_serve, foldl_offered]
  exact {
    subjects := subjects_serve
    once := fun id hid c hstored => offers_for_client hnodup hid hstored
    others := fun c hstored => ⟨fun o ho hconn =>
        hstored o.client (mem_serve ho).1 (hconn ▸ (mem_serve ho).2),
      (sessions_serve c).trans (by rw [count_targets_none hstored]; rfl)⟩
    alone := fun id hid c hstored honly =>
      alone_serve hnodup hid hstored honly
    shared := fun c k hk => f.served_serve frame ((count_targets c).trans hk)
    messagesSent := by rw [hhub]; rfl
    errors := by rw [hhub]; rfl
    latency := by rw [hhub]; exact Metrics.latency_record latency _
    activeConnections := by rw [hhub]; rfl
    messagesReceived := by rw [hhub]; rfl
    hub := by rw [hhub]
    closed := closed_serve }

/-- The hub's own way through the subscribers, when each has a connection of
its own. -/
theorem hub_dispatch (latency : Binary64) {t : Tick}
    (hnodup : (f.hub.registry.subscribers t.symbol).Nodup)
    (hunshared : f.Unshared (f.hub.registry.subscribers t.symbol)) :
    f.hub.dispatch f.answer latency t =
      ((f.dispatch (f.hub.registry.subscribers t.symbol) latency t).1.hub,
        Dispatch.plan f.hub.registry f.hub.pool t,
        (f.dispatch (f.hub.registry.subscribers t.symbol) latency t).2.map
        Offer.entry) := by
  by_cases hids : f.hub.registry.subscribers t.symbol = []
  · have hplan : Dispatch.plan f.hub.registry f.hub.pool t = .nothing := by
      simp [Dispatch.plan, hids]
    rw [hids, dispatch_nil, Hub.dispatch, hplan]
    rfl
  cases ht : t.encode? with
  | none =>
      have hplan :
          Dispatch.plan f.hub.registry f.hub.pool t = .unwritable := by
        simp [Dispatch.plan, hids, ht]
      rw [dispatch_unwritable latency hids ht, Hub.dispatch, hplan]
      rfl
  | some frame =>
      have hplan : Dispatch.plan f.hub.registry f.hub.pool t =
          .offer frame (f.targets (f.hub.registry.subscribers t.symbol)) := by
        simp [Dispatch.plan, hids, ht, Dispatch.targets, targets]
      rw [dispatch_writable latency hids ht, Hub.dispatch, hplan, timed,
        hub_serve, entries_serve (nodup_targets hnodup hunshared)]
      simp only [Dispatch.Report.count_eq]
      rw [← entries_serve (nodup_targets hnodup hunshared), List.foldl_map]
      rfl

/-- Whatever the hub, the sessions, the tick and the order of its subscribers,
nothing happens without a subscriber, a tick that cannot be written is one
error more and nothing else, and any other is offered once for every
subscriber with a stored connection. The order does not matter, and the hub's
own is one of them. -/
theorem dispatch_exact (f : Floor) (latency : Binary64) (t : Tick)
    {clients ids : List Bytes}
    (hclients : f.hub.registry.clients (Symbol.normalize t.symbol) = clients)
    (hids : Enumerates ids clients) :
    (clients = [] → f.dispatch ids latency t = (f, [])) ∧
    (clients ≠ [] → t.encode? = none →
      f.dispatch ids latency t = ({ f with hub := { f.hub with metrics :=
        { f.hub.metrics with errors := f.hub.metrics.errors + 1 } } }, [])) ∧
    (clients ≠ [] → ∀ frame, t.encode? = some frame →
      f.Delivers ids frame latency (f.dispatch ids latency t)) ∧
    (∀ ids', Enumerates ids' clients →
      (f.dispatch ids' latency t).1 = (f.dispatch ids latency t).1 ∧
        ((f.dispatch ids' latency t).2.map Offer.entry).Perm
          ((f.dispatch ids latency t).2.map Offer.entry)) ∧
    (clients.Nodup → f.Unshared clients →
      (f.hub.dispatch f.answer latency t).1 =
          (f.dispatch ids latency t).1.hub ∧
        (f.hub.dispatch f.answer latency t).2.2.Perm
          ((f.dispatch ids latency t).2.map Offer.entry)) := by
  have hnil : clients = [] ↔ ids = [] := by
    simp only [List.eq_nil_iff_forall_not_mem, hids.mem]
  refine ⟨fun h => ?_, fun h ht => ?_, fun h frame ht => ?_,
    fun ids' hids' => ?_, fun hnodup hunshared => ?_⟩
  · rw [hnil.mp h]
    exact dispatch_nil latency t
  · exact dispatch_unwritable latency (fun hempty => h (hnil.mpr hempty)) ht
  · exact delivers_dispatch latency hids.nodup
      (fun hempty => h (hnil.mpr hempty)) ht
  · exact dispatch_of_perm (hids'.perm hids) latency t
  · subst hclients
    have hown := dispatch_of_perm (f := f)
      (Enumerates.perm ⟨hnodup, fun _ => Iff.rfl⟩ hids) latency t
    rw [hub_dispatch latency hnodup hunshared]
    exact ⟨congrArg hub hown.1, hown.2⟩

/-- Four subscribers of a symbol: there is room for one more frame for the
first, none for the second, the session of the third is closed, and the fourth
has no connection. -/
def mixed : Floor where
  hub := {
    limiter := { window := 0, max := 0 }
    registry := ⟨Table.empty.set (utf8 "BTC")
      [utf8 "a", utf8 "b", utf8 "c", utf8 "d"]⟩
    pool := ⟨((Table.empty.set (utf8 "a") ⟨0, utf8 "a"⟩).set
      (utf8 "b") ⟨1, utf8 "b"⟩).set (utf8 "c") ⟨2, utf8 "c"⟩⟩
    metrics := {
      activeConnections := 3
      messagesSent := 40
      messagesReceived := 5
      errors := 6
      latency := [.ofInt 7]
      length_latency_le := by decide } }
  sessions c := {
    id := c.id
    capacity := if c.key = 1 then 1 else 2
    queue := [utf8 "older"]
    isOpen := c.key ≠ 2 }

/-- Another order of its subscribers. -/
def shuffled : List Bytes := [utf8 "c", utf8 "a", utf8 "d", utf8 "b"]

theorem enumerates_shuffled :
    Enumerates shuffled [utf8 "a", utf8 "b", utf8 "c", utf8 "d"] where
  nodup := by decide +kernel
  mem := by
    have hperm : shuffled.Perm [utf8 "a", utf8 "b", utf8 "c", utf8 "d"] := by
      decide +kernel
    exact fun id => hperm.mem_iff

/-- The frame that they are offered. -/
def mixedFrame : Bytes :=
  utf8 "\x7b\"symbol\":\" btc\",\"price\":0,\"volume\":0,\"timestamp\":\"\"\x7d"

theorem encode?_mixed :
    Tick.encode? { symbol := utf8 " btc" } = some mixedFrame := by
  decide +kernel

theorem dispatch_exact_of_mixed :
    ∃ (t : Tick) (g : Floor) (offers : List Offer),
      mixed.dispatch shuffled .zero t = (g, offers) ∧
      t.encode? = some mixedFrame ∧
      mixed.Delivers shuffled mixedFrame .zero (g, offers) ∧
      offers.map (fun o => (o.client, o.conn.key, o.outcome)) =
        [(utf8 "c", 2, some .closed), (utf8 "a", 0, none),
          (utf8 "b", 1, some .full)] ∧
      (g.hub.metrics.messagesSent, g.hub.metrics.errors) = (41, 7) ∧
      g.hub.metrics.latency = [.ofInt 7, .zero] ∧
      (g.sessions ⟨0, utf8 "a"⟩).queue = [utf8 "older", mixedFrame] ∧
      (g.sessions ⟨1, utf8 "b"⟩).queue = [utf8 "older"] ∧
      (g.sessions ⟨1, utf8 "b"⟩).isOpen = false ∧
      (g.sessions ⟨2, utf8 "c"⟩).queue = [utf8 "older"] := by
  have hclients : mixed.hub.registry.clients
      (Symbol.normalize (utf8 " btc")) =
        [utf8 "a", utf8 "b", utf8 "c", utf8 "d"] := by
    decide +kernel
  have hexact := dispatch_exact mixed .zero { symbol := utf8 " btc" } hclients
    enumerates_shuffled
  refine ⟨{ symbol := utf8 " btc" }, _, _, rfl, encode?_mixed,
    hexact.2.2.1 (List.cons_ne_nil _ _) mixedFrame encode?_mixed, ?_⟩
  decide +kernel

end Floor
end TickRelay
