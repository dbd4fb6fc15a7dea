import TickRelay.Proofs.VisitTraffic

/-!
# No subscription outlives its client

A visit that ends withdraws the subscriptions of its client only if it finds
the client without another connection. So the withdrawal may be left to another
visit, and a visit that lost its place in the pool may still carry out
commands.

**Algorithm.** A visit *holds* its place up to the release of its connection,
and it *owes* a withdrawal until it has withdrawn or has seen another
connection of its client. `Accounted` says that every stored connection belongs
to a visit that holds its place, and that every subscriber has a visit that
owes a withdrawal.

**Results.** `accounted_of_run` is the invariant. `unsubscribed_of_finished`: a
client all of whose visits are finished has no subscriptions.
-/

namespace TickRelay
namespace Server

namespace Stage

/-- The connection may still be the stored one. -/
def Holds : Stage → Prop
  | .reading | .leaving => True
  | .released | .looked _ | .withdrawn | .finished => False

/-- The subscriptions of the client may still be withdrawn by this visit. -/
def Owes : Stage → Prop
  | .reading | .leaving | .released | .looked false => True
  | .looked true | .withdrawn | .finished => False

theorem Holds.owes {stage : Stage} (h : stage.Holds) : stage.Owes := by
  cases stage with
  | reading => trivial
  | leaving => trivial
  | released => exact h.elim
  | looked replaced => exact h.elim
  | withdrawn => exact h.elim
  | finished => exact h.elim

end Stage

namespace Lobby

/-- Some visit of a client owes a withdrawal. -/
def Owed (w : Lobby) (client : Bytes) : Prop :=
  ∃ (n : Nat) (v : Visit), w.visits[n]? = some v ∧
    v.client = client ∧ v.stage.Owes

/-- Stored connections and subscribers are accounted for by visits. -/
structure Accounted (w : Lobby) : Prop where
  keys : ∀ (n : Nat) (v : Visit), w.visits[n]? = some v → v.conn.key = n
  owner : ∀ c conn, w.stored c = some conn →
    conn.id = c ∧ ∃ v : Visit, w.visits[conn.key]? = some v ∧
      v.conn = conn ∧ v.stage.Holds
  subscriber : ∀ c s, w.Subscribed c s → w.Owed c

theorem accounted_start (limiter : Limiter) (feed : Feed.Client)
    (releaseOnIdle : Bool) : (start limiter feed releaseOnIdle).Accounted where
  keys n v hv := by simp [start] at hv
  owner c conn hstored := by simp [start, stored, Pool.get?] at hstored
  subscriber c s hsub := by simp [start, Subscribed, Registry.clients] at hsub

section Steps

variable {w w' : Lobby} {n : Nat} {v v' : Visit}

theorem Owed.set {c : Bytes} (h : w.Owed c) (hv : w.visits[n]? = some v)
    (hvisits : w'.visits = w.visits.set n v') (hconn : v'.conn = v.conn)
    (howes : v.client = c → v.stage.Owes → v'.stage.Owes) : w'.Owed c := by
  obtain ⟨m, u, hu, hclient, hu_owes⟩ := h
  by_cases hm : n = m
  · subst hm
    rw [hv] at hu
    cases hu
    refine ⟨n, v', ?_, ?_, howes hclient hu_owes⟩
    · rw [visits_set hv hvisits, if_pos rfl]
    · rw [← hclient]
      exact congrArg Connection.id hconn
  · refine ⟨m, u, ?_, hclient, hu_owes⟩
    rw [visits_set hv hvisits, if_neg hm, hu]

namespace Accounted

/-- One visit changes its stage, the pool stores nothing new. -/
theorem set (h : w.Accounted) (hv : w.visits[n]? = some v)
    (hvisits : w'.visits = w.visits.set n v') (hconn : v'.conn = v.conn)
    (hstored : ∀ c conn, w'.stored c = some conn → w.stored c = some conn)
    (hholds : ∀ c, w'.stored c = some v.conn → v.stage.Holds → v'.stage.Holds)
    (hsubscriber : ∀ c s, w'.Subscribed c s → w'.Owed c) : w'.Accounted where
  keys m u hu := by
    rw [visits_set hv hvisits] at hu
    split at hu
    case isTrue hm =>
      cases hu
      rw [hconn, ← hm]
      exact h.keys n v hv
    case isFalse => exact h.keys m u hu
  owner c conn hafter := by
    have hbefore := hstored c conn hafter
    obtain ⟨hid, u, hu, huconn, huholds⟩ := h.owner c conn hbefore
    refine ⟨hid, ?_⟩
    by_cases hkey : n = conn.key
    · rw [← hkey, hv] at hu
      cases hu
      refine ⟨v', ?_, hconn.trans huconn, ?_⟩
      · rw [visits_set hv hvisits, if_pos hkey]
      · exact hholds c (huconn ▸ hafter) huholds
    · refine ⟨u, ?_, huconn, huholds⟩
      rw [visits_set hv hvisits, if_neg hkey, hu]
  subscriber := hsubscriber

/-- The pool may lose connections while visits and subscribers stay. -/
theorem shrink (h : w.Accounted) (hvisits : w'.visits = w.visits)
    (hregistry : w'.hub.registry = w.hub.registry)
    (hstored : ∀ c conn, w'.stored c = some conn → w.stored c = some conn) :
    w'.Accounted where
  keys m u hu := h.keys m u (hvisits ▸ hu)
  owner c conn hafter := by
    rw [hvisits]
    exact h.owner c conn (hstored c conn hafter)
  subscriber c s hsub := by
    unfold Owed
    rw [hvisits]
    unfold Subscribed at hsub
    rw [hregistry] at hsub
    exact h.subscriber c s hsub

theorem arrive (h : w.Accounted) {client : Bytes}
    (hconn : v.conn = ⟨w.visits.length, client⟩) (hstage : v.stage = .reading)
    (hpool : w'.hub.pool = (w.hub.pool.insert client v.conn).1)
    (hregistry : w'.hub.registry = w.hub.registry)
    (hvisits : w'.visits = w.visits ++ [v]) : w'.Accounted := by
  have hold : ∀ {m : Nat} {u : Visit}, w.visits[m]? = some u →
      w'.visits[m]? = some u := by
    intro m u hu
    rw [hvisits, List.getElem?_append_left (List.getElem?_eq_some_iff.mp hu).1]
    exact hu
  have hnew : w'.visits[w.visits.length]? = some v := by
    rw [hvisits, List.getElem?_concat_length]
  constructor
  · intro m u hu
    rw [hvisits, List.getElem?_append] at hu
    split at hu
    case isTrue => exact h.keys m u hu
    case isFalse hm =>
      obtain ⟨hlt, hu⟩ := List.getElem?_eq_some_iff.mp hu
      have hzero : m - w.visits.length = 0 := by simpa using hlt
      have huv : u = v := by simpa [hzero] using hu.symm
      rw [huv, hconn]
      show w.visits.length = m
      omega
  · intro c conn hafter
    unfold stored at hafter
    rw [hpool, Pool.get?_insert] at hafter
    split at hafter
    case isTrue hc =>
      cases hafter
      have hkey : v.conn.key = w.visits.length := by rw [hconn]
      refine ⟨by rw [hconn, hc], v, hkey ▸ hnew, rfl, ?_⟩
      rw [hstage]
      trivial
    case isFalse =>
      obtain ⟨hid, u, hu, huconn, huholds⟩ := h.owner c conn hafter
      exact ⟨hid, u, hold hu, huconn, huholds⟩
  · intro c s hsub
    unfold Subscribed at hsub
    rw [hregistry] at hsub
    obtain ⟨m, u, hu, hclient, howes⟩ := h.subscriber c s hsub
    exact ⟨m, u, hold hu, hclient, howes⟩

/-- A visit that finds another connection leaves the withdrawal to the visit of
that connection. -/
theorem owed_after_look (h : w.Accounted) (hv : w.visits[n]? = some v)
    (hstage : v.stage = .released)
    (hvisits : w'.visits = w.visits.set n { v with
      stage := .looked (w.stored v.client).isSome })
    {c : Bytes} (howed : w.Owed c) : w'.Owed c := by
  cases hstored : w.stored v.client with
  | none =>
      refine howed.set hv hvisits rfl fun _ _ => ?_
      rw [hstored]
      trivial
  | some conn =>
      obtain ⟨hid, u, hu, huconn, huholds⟩ := h.owner v.client conn hstored
      have hne : n ≠ conn.key := by
        intro hkey
        rw [← hkey, hv] at hu
        cases hu
        rw [hstage] at huholds
        exact huholds
      by_cases hc : v.client = c
      · refine ⟨conn.key, u, ?_, ?_, huholds.owes⟩
        · rw [visits_set hv hvisits, if_neg hne, hu]
        · rw [← hc, ← hid, ← huconn]
          rfl
      · exact howed.set hv hvisits rfl fun hclient => absurd hclient hc

/-- Once a visit owes nothing, its further steps change nothing that
matters. -/
theorem pass (h : w.Accounted) (hv : w.visits[n]? = some v)
    (hvisits : w'.visits = w.visits.set n v') (hconn : v'.conn = v.conn)
    (hsettled : ¬ v.stage.Owes)
    (hstored : ∀ c conn, w'.stored c = some conn → w.stored c = some conn)
    (hregistry : w'.hub.registry = w.hub.registry) : w'.Accounted := by
  refine h.set hv hvisits hconn hstored
    (fun _ _ hholds => absurd hholds.owes hsettled) ?_
  intro c s hsub
  unfold Subscribed at hsub
  rw [hregistry] at hsub
  exact (h.subscriber c s hsub).set hv hvisits hconn fun _ howes =>
    absurd howes hsettled

theorem step (h : w.Accounted) {e : Event} (hmove : Move w w' e) :
    w'.Accounted := by
  have hstored : (∀ now c session, e ≠ .arrive now c session) →
      ∀ c conn, w'.stored c = some conn → w.stored c = some conn := by
    intro he c conn hafter
    rcases stored_of_move hmove hafter with hbefore |
      ⟨⟨now, session, harrive⟩, -⟩
    · exact hbefore
    · exact absurd harrive (he now c session)
  -- A subscriber that was one before has a visit that owes; what is left is
  -- that it still does.
  have hkept : w'.hub.registry = w.hub.registry → (∀ c, w.Owed c → w'.Owed c) →
      ∀ c s, w'.Subscribed c s → w'.Owed c := by
    intro hregistry howed c s hsub
    unfold Subscribed at hsub
    rw [hregistry] at hsub
    exact howed c (h.subscriber c s hsub)
  cases hmove with
  | refused hpool hregistry hvisits =>
      refine h.shrink hvisits hregistry fun c conn hafter => ?_
      unfold stored at hafter ⊢
      rw [← hpool]
      exact hafter
  | admitted hconn hstage hpool hregistry hvisits =>
      exact h.arrive hconn hstage hpool hregistry hvisits
  | @received n payload v v' hv hstage hconn hstage' hpool hothers hvisits =>
      have hholds : v'.stage.Holds := by
        rcases hstage' with hstage' | hstage' <;> rw [hstage'] <;> trivial
      refine h.set hv hvisits hconn (hstored fun _ _ _ => Event.noConfusion)
        (fun _ _ _ => hholds) fun c s hsub => ?_
      by_cases hc : c = v.client
      · refine ⟨n, v', ?_, ?_, hholds.owes⟩
        · rw [visits_set hv hvisits, if_pos rfl]
        · rw [hc]
          exact congrArg Connection.id hconn
      · have howed := h.subscriber c s ((hothers c s hc).mp hsub)
        exact howed.set hv hvisits hconn fun _ _ => hholds.owes
  | hungUp hv hstage hpool hregistry hvisits =>
      exact h.set hv hvisits rfl (hstored fun _ _ _ => Event.noConfusion)
        (fun _ _ _ => trivial)
        (hkept hregistry fun c howed => howed.set hv hvisits rfl
          fun _ _ => trivial)
  | @released n v hv hstage hpool hregistry hvisits =>
      refine h.set hv hvisits rfl (hstored fun _ _ _ => Event.noConfusion) ?_
        (hkept hregistry fun c howed => howed.set hv hvisits rfl
          fun _ _ => trivial)
      intro c hafter
      -- The released connection is stored under its own client alone, and
      -- there it is taken out.
      have hbefore := hstored (fun _ _ _ => Event.noConfusion) c v.conn hafter
      obtain ⟨hid, -⟩ := h.owner c v.conn hbefore
      unfold stored at hafter hbefore
      rw [hpool, Pool.get?_release, if_pos ⟨hid.symm, hbefore⟩] at hafter
      cases hafter
  | looked hv hstage hpool hregistry hvisits =>
      refine h.set hv hvisits rfl (hstored fun _ _ _ => Event.noConfusion) ?_
        (hkept hregistry fun c howed =>
          h.owed_after_look hv hstage hvisits howed)
      intro _ _ hholds
      rw [hstage] at hholds
      exact hholds.elim
  | left hv hstage hpool hregistry hvisits =>
      refine h.pass hv hvisits rfl ?_
        (hstored fun _ _ _ => Event.noConfusion) hregistry
      rw [hstage]
      exact not_false
  | @withdrawn n v hv hstage hpool hregistry hvisits =>
      refine h.set hv hvisits rfl
        (hstored fun _ _ _ => Event.noConfusion) ?_ ?_
      · intro _ _ hholds
        rw [hstage] at hholds
        exact hholds.elim
      · intro c s hsub
        unfold Subscribed at hsub
        rw [hregistry, Registry.mem_clients_leaveAll] at hsub
        obtain ⟨hbefore, hc⟩ := hsub
        exact (h.subscriber c s hbefore).set hv hvisits rfl fun hclient =>
          absurd hclient.symm hc
  | finished hv hstage hconn hstage' hpool hregistry hvisits =>
      refine h.pass hv hvisits hconn ?_
        (hstored fun _ _ _ => Event.noConfusion) hregistry
      rw [hstage]
      exact not_false
  | removed hpool hregistry hvisits =>
      exact h.shrink hvisits hregistry (hstored fun _ _ _ => Event.noConfusion)
  | closed hpool hregistry hvisits =>
      exact h.shrink hvisits hregistry (hstored fun _ _ _ => Event.noConfusion)
  | session hv hpool hregistry hvisits =>
      exact h.set hv hvisits rfl (hstored fun _ _ _ => Event.noConfusion)
        (fun _ _ hholds => hholds)
        (hkept hregistry fun c howed => howed.set hv hvisits rfl
          fun _ howes => howes)
  | outside hpool hregistry hvisits =>
      exact h.shrink hvisits hregistry (hstored fun _ _ _ => Event.noConfusion)

end Accounted
end Steps

theorem accounted_of_run {limiter : Limiter} {feed : Feed.Client}
    {releaseOnIdle : Bool} {es : List Event} {w : Lobby}
    (hrun : Runs.run step (start limiter feed releaseOnIdle) es = some w) :
    w.Accounted :=
  Runs.run_invariant (fun _ _ _ h hstep => h.step (move_of_step hstep))
    (accounted_start limiter feed releaseOnIdle) hrun

/-- Once every visit of a client has ended, the client is subscribed to
nothing, in whatever order the visits were admitted, read, displaced and
ended. -/
theorem unsubscribed_of_finished {limiter : Limiter} {feed : Feed.Client}
    {releaseOnIdle : Bool} {es : List Event} {w : Lobby}
    (hrun : Runs.run step (start limiter feed releaseOnIdle) es = some w)
    {client : Bytes}
    (hdone : ∀ v ∈ w.visits, v.client = client → v.stage = .finished)
    (symbol : Bytes) : ¬ w.Subscribed client symbol := by
  intro hsub
  obtain ⟨n, v, hv, hclient, howes⟩ :=
    (accounted_of_run hrun).subscriber client symbol hsub
  have hstage : v.stage = .finished :=
    hdone v (List.mem_of_getElem? hv) hclient
  rw [hstage] at howes
  exact howes

/-- A client comes twice. The second visit ends first and withdraws; only then
the first one, which lost its place, carries out a command and ends. -/
def lateCommand : List Event :=
  [.arrive ⟨0⟩ [97] ⟨[97], 1, [], true, 0⟩,
    .arrive ⟨1⟩ [97] ⟨[97], 1, [], true, 0⟩,
    .hangUp 1, .turn 1, .turn 1, .turn 1, .turn 1,
    .receive 0 (utf8 "\x7b\"type\":\"subscribe\",\"symbol\":\"A\"\x7d"),
    .hangUp 0, .turn 0, .turn 0, .turn 0, .turn 0]

/-- The late subscription is there, and it is gone when both visits are
finished. -/
theorem unsubscribed_after_late_command :
    (∃ w, Runs.run step (start ⟨60, 2, .empty⟩ {} true) (lateCommand.take 8) =
        some w ∧ w.Subscribed [97] [65]) ∧
    ∃ w, Runs.run step (start ⟨60, 2, .empty⟩ {} true) lateCommand = some w ∧
      (∀ v ∈ w.visits, v.client = [97] → v.stage = .finished) ∧
      ¬ w.Subscribed [97] [65] := by
  have hbefore :
      (Runs.run step (start ⟨60, 2, .empty⟩ {} true) (lateCommand.take 8)).map
        (fun w => w.hub.registry.clients [65]) = some [[97]] := rfl
  have hafter : (Runs.run step (start ⟨60, 2, .empty⟩ {} true) lateCommand).map
      (fun w => w.visits.map Visit.stage) = some [.finished, .finished] := rfl
  obtain ⟨u, hu, hclients⟩ := Option.map_eq_some_iff.mp hbefore
  obtain ⟨w, hw, hstages⟩ := Option.map_eq_some_iff.mp hafter
  have hdone : ∀ v ∈ w.visits, v.client = [97] → v.stage = .finished := by
    intro v hv _
    have hmem : v.stage ∈ w.visits.map Visit.stage := List.mem_map_of_mem hv
    rw [hstages] at hmem
    simpa using hmem
  refine ⟨⟨u, hu, ?_⟩, w, hw, hdone, unsubscribed_of_finished hw hdone [65]⟩
  unfold Subscribed
  rw [hclients]
  exact List.mem_cons_self

end Lobby
end Server
end TickRelay
