import TickRelay.Proofs.VisitTraffic
import Mathlib.Data.List.Induction

/-!
# Teardown of a visit whose client has come again

At its end a visit asks the pool whether its client has another connection, and
in a later step it withdraws the subscriptions of the client if there was none.
A connection that is admitted between the two steps is not seen.

**Algorithm.** `place` is what teardown depends on in a visit. A visit is about
to withdraw exactly if its last step found no connection (`looked_iff`), and a
connection that was not stored then was admitted since (`stored_of_run`),
because connections get growing keys.

**Results.** `strips_iff_overtaken`: a step of teardown takes subscriptions
from a client that has the connection of another visit in the pool exactly if
that connection was admitted after the visit had looked. In all other runs a
client that came again keeps what it is subscribed to. `overtakenTeardown` is a
run in which it does not.
-/

namespace TickRelay
namespace Server
namespace Lobby

/-- The connection and the stage of a visit. -/
def place (w : Lobby) (n : Nat) : Option (Connection × Stage) :=
  w.visits[n]?.map fun v => (v.conn, v.stage)

section Steps

variable {w w' : Lobby} {n : Nat} {v v' : Visit}

theorem place_eq (hv : w.visits[n]? = some v) :
    w.place n = some (v.conn, v.stage) := by
  simp [place, hv]

theorem place_of_visits (hvisits : w'.visits = w.visits) (m : Nat) :
    w'.place m = w.place m := by
  simp [place, hvisits]

theorem place_set (hv : w.visits[n]? = some v)
    (hvisits : w'.visits = w.visits.set n v') (m : Nat) :
    w'.place m = if n = m then some (v'.conn, v'.stage) else w.place m := by
  unfold place
  rw [visits_set hv hvisits]
  split
  · rfl
  · rfl

theorem lt_of_place {p : Connection × Stage} (h : w.place n = some p) :
    n < w.visits.length := by
  obtain ⟨v, hv, -⟩ := Option.map_eq_some_iff.mp h
  exact (List.getElem?_eq_some_iff.mp hv).1

/-- A visit whose stage changes without a look has not looked before and has
not looked after. -/
theorem looked_set (hv : w.visits[n]? = some v)
    (hvisits : w'.visits = w.visits.set n v')
    (hbefore : ∀ b, v.stage ≠ .looked b) (hafter : ∀ b, v'.stage ≠ .looked b)
    (m : Nat) (conn : Connection) (b : Bool) :
    w'.place m = some (conn, .looked b) ↔
      w.place m = some (conn, .looked b) := by
  rw [place_set hv hvisits]
  split
  case isTrue hm =>
    rw [← hm, place_eq hv]
    constructor
    · intro h
      exact absurd (congrArg Prod.snd (Option.some.inj h)) (hafter b)
    · intro h
      exact absurd (congrArg Prod.snd (Option.some.inj h)) (hbefore b)
  case isFalse => exact Iff.rfl

/-- What a visit saw when it looked stays as it is until its own next step. -/
theorem looked_of_move {e : Event} (hmove : Move w w' e) (hne : e ≠ .turn n)
    (conn : Connection) (b : Bool) :
    w'.place n = some (conn, .looked b) ↔
      w.place n = some (conn, .looked b) := by
  -- A step of another visit leaves the place alone.
  have hother : ∀ {m : Nat} {u u' : Visit}, w.visits[m]? = some u →
      w'.visits = w.visits.set m u' → Event.turn m ≠ .turn n →
      (w'.place n = some (conn, .looked b) ↔
        w.place n = some (conn, .looked b)) := by
    intro m u u' hu hvisits hturn
    rw [place_set hu hvisits, if_neg fun hm => hturn (congrArg Event.turn hm)]
  cases hmove with
  | refused _ _ hvisits => rw [place_of_visits hvisits]
  | @admitted _ _ _ u _ hstage _ _ hvisits =>
      unfold place
      rw [hvisits, List.getElem?_append]
      split
      case isTrue => exact Iff.rfl
      case isFalse hn =>
        rw [List.getElem?_eq_none (Nat.le_of_not_lt hn)]
        constructor
        · intro h
          obtain ⟨x, hx, hpair⟩ := Option.map_eq_some_iff.mp h
          have hxu : x = u := by simpa using List.mem_of_getElem? hx
          rw [hxu, hstage] at hpair
          cases hpair
        · intro h
          cases h
  | received hv hstage _ hstage' _ _ hvisits =>
      refine looked_set hv hvisits (fun b => ?_) (fun b => ?_) n conn b
      · rw [hstage]
        exact Stage.noConfusion
      · rcases hstage' with hstage' | hstage' <;> rw [hstage'] <;>
          exact Stage.noConfusion
  | hungUp hv hstage _ _ hvisits =>
      refine looked_set hv hvisits (fun b => ?_)
        (fun b => Stage.noConfusion) n conn b
      rw [hstage]
      exact Stage.noConfusion
  | released hv _ _ _ hvisits => exact hother hv hvisits hne
  | looked hv _ _ _ hvisits => exact hother hv hvisits hne
  | left hv _ _ _ hvisits => exact hother hv hvisits hne
  | withdrawn hv _ _ _ hvisits => exact hother hv hvisits hne
  | finished hv _ _ _ _ _ hvisits => exact hother hv hvisits hne
  | removed _ _ hvisits => rw [place_of_visits hvisits]
  | closed _ _ hvisits => rw [place_of_visits hvisits]
  | session hv _ _ hvisits =>
      rw [place_set hv hvisits]
      split
      case isTrue hm => rw [← hm, place_eq hv]
      case isFalse => exact Iff.rfl
  | outside _ _ hvisits => rw [place_of_visits hvisits]

/-- A visit is about to withdraw after its own step exactly if it found no
connection in it. -/
theorem looked_of_turn (hmove : Move w w' (.turn n)) (conn : Connection) :
    w'.place n = some (conn, .looked false) ↔
      w.place n = some (conn, .released) ∧ w.stored conn.id = none := by
  cases hmove with
  | released hv hstage _ _ hvisits =>
      rw [place_set hv hvisits, if_pos rfl, place_eq hv, hstage]
      simp
  | @looked _ v hv hstage _ _ hvisits =>
      rw [place_set hv hvisits, if_pos rfl, place_eq hv, hstage]
      simp only [Option.some.injEq, Prod.mk.injEq, Stage.looked.injEq,
        and_true, Option.isSome_eq_false_iff, Option.isNone_iff_eq_none]
      constructor
      · rintro ⟨rfl, hnone⟩
        exact ⟨rfl, hnone⟩
      · rintro ⟨rfl, hnone⟩
        exact ⟨rfl, hnone⟩
  | left hv hstage _ _ hvisits =>
      rw [place_set hv hvisits, if_pos rfl, place_eq hv, hstage]
      simp
  | withdrawn hv hstage _ _ hvisits =>
      rw [place_set hv hvisits, if_pos rfl, place_eq hv, hstage]
      simp
  | finished hv hstage _ hstage' _ _ hvisits =>
      rw [place_set hv hvisits, if_pos rfl, place_eq hv, hstage, hstage']
      simp

/-- Teardown takes a subscription only in the step that withdraws, and there it
takes all. -/
theorem lost_iff (hmove : Move w w' (.turn n)) {client symbol : Bytes}
    (hsub : w.Subscribed client symbol) :
    ¬ w'.Subscribed client symbol ↔
      ∃ own, w.place n = some (own, .looked false) ∧ own.id = client := by
  -- Every step but the withdrawal leaves the subscribers alone.
  have hkept : ∀ {v : Visit}, w.visits[n]? = some v → v.stage ≠ .looked false →
      w'.hub.registry = w.hub.registry → (¬ w'.Subscribed client symbol ↔
        ∃ own, w.place n = some (own, .looked false) ∧ own.id = client) := by
    intro v hv hstage hregistry
    refine iff_of_false (fun hlost => hlost ?_) ?_
    · unfold Subscribed
      rw [hregistry]
      exact hsub
    · rintro ⟨own, hplace, -⟩
      rw [place_eq hv] at hplace
      exact hstage (congrArg Prod.snd (Option.some.inj hplace))
  cases hmove with
  | released hv hstage _ hregistry _ =>
      exact hkept hv (by simp [hstage]) hregistry
  | looked hv hstage _ hregistry _ =>
      exact hkept hv (by simp [hstage]) hregistry
  | left hv hstage _ hregistry _ => exact hkept hv (by simp [hstage]) hregistry
  | @withdrawn _ v hv hstage _ hregistry _ =>
      have hleft : w'.Subscribed client symbol ↔ w.Subscribed client symbol ∧
          client ≠ v.client := by
        unfold Subscribed
        rw [hregistry, Registry.mem_clients_leaveAll]
      rw [hleft, place_eq hv, hstage]
      constructor
      · intro hlost
        refine ⟨v.conn, rfl, ?_⟩
        by_contra hne
        exact hlost ⟨hsub, fun hclient => hne hclient.symm⟩
      · rintro ⟨own, hown, hid⟩ ⟨-, hne⟩
        cases hown
        exact hne hid.symm
  | finished hv hstage _ _ _ hregistry _ =>
      exact hkept hv (by simp [hstage]) hregistry

theorem length_le_of_move {e : Event} (hmove : Move w w' e) :
    w.visits.length ≤ w'.visits.length := by
  have hset : ∀ {m : Nat} {u : Visit}, w'.visits = w.visits.set m u →
      w.visits.length ≤ w'.visits.length := by
    intro m u hvisits
    have hlength : w'.visits.length = w.visits.length := by
      rw [hvisits, List.length_set]
    omega
  have hsame : w'.visits = w.visits → w.visits.length ≤ w'.visits.length := by
    intro hvisits
    exact Nat.le_of_eq (congrArg List.length hvisits).symm
  cases hmove with
  | refused _ _ hvisits => exact hsame hvisits
  | admitted _ _ _ _ hvisits => simp [hvisits]
  | received _ _ _ _ _ _ hvisits => exact hset hvisits
  | hungUp _ _ _ _ hvisits => exact hset hvisits
  | released _ _ _ _ hvisits => exact hset hvisits
  | looked _ _ _ _ hvisits => exact hset hvisits
  | left _ _ _ _ hvisits => exact hset hvisits
  | withdrawn _ _ _ _ hvisits => exact hset hvisits
  | finished _ _ _ _ _ _ hvisits => exact hset hvisits
  | removed _ _ hvisits => exact hsame hvisits
  | closed _ _ hvisits => exact hsame hvisits
  | session _ _ _ hvisits => exact hset hvisits
  | outside _ _ hvisits => exact hsame hvisits

end Steps

/-- A connection that is stored after a run was stored before, or was admitted
in the run. -/
theorem stored_of_run {w₀ w : Lobby} {es : List Event}
    (hrun : Runs.run step w₀ es = some w) :
    w₀.visits.length ≤ w.visits.length ∧
    ∀ c conn, w.stored c = some conn → w₀.stored c = some conn ∨
      w₀.visits.length ≤ conn.key := by
  refine Runs.run_invariant
    (P := fun x : Lobby => w₀.visits.length ≤ x.visits.length ∧
      ∀ c conn, x.stored c = some conn →
        w₀.stored c = some conn ∨ w₀.visits.length ≤ conn.key) ?_
    ⟨Nat.le_refl _, fun c conn hstored => Or.inl hstored⟩ hrun
  rintro x e y ⟨hlength, hx⟩ hstep
  have hmove := move_of_step hstep
  refine ⟨Nat.le_trans hlength (length_le_of_move hmove),
    fun c conn hstored => ?_⟩
  rcases stored_of_move hmove hstored with hbefore | ⟨-, hnew⟩
  · exact hx c conn hbefore
  · right
    rw [hnew]
    exact hlength

theorem looked_of_run {w₀ w : Lobby} {n : Nat} {es : List Event}
    (hes : Event.turn n ∉ es) (hrun : Runs.run step w₀ es = some w)
    (conn : Connection) (b : Bool) :
    w.place n = some (conn, .looked b) ↔
      w₀.place n = some (conn, .looked b) := by
  induction es generalizing w₀ with
  | nil =>
      cases hrun
      exact Iff.rfl
  | cons e es ih =>
      obtain ⟨x, hstep, hrest⟩ := Runs.run_cons.mp hrun
      have hne : e ≠ .turn n := fun he => hes (he ▸ List.mem_cons_self)
      rw [ih (fun hmem => hes (List.mem_cons_of_mem e hmem)) hrest]
      exact looked_of_move (move_of_step hstep) hne conn b

/-- The last step of visit `n` was to look, and its client had no connection
then: the events before, the events since, and the state in which it looked. -/
structure FoundNone (s : Lobby) (es : List Event) (n : Nat) (own : Connection)
    (before after : List Event) (w₀ : Lobby) : Prop where
  split : es = before ++ .turn n :: after
  last : Event.turn n ∉ after
  run : Runs.run step s before = some w₀
  released : w₀.place n = some (own, .released)
  free : w₀.stored own.id = none

/-- A visit is about to withdraw exactly if its last step was to look and to
find nothing. -/
theorem looked_iff {s w : Lobby} {es : List Event} {n : Nat} {own : Connection}
    (hs : s.visits = []) (hrun : Runs.run step s es = some w) :
    w.place n = some (own, .looked false) ↔
      ∃ before after w₀, FoundNone s es n own before after w₀ := by
  constructor
  · intro hplace
    induction es using List.reverseRecOn generalizing w with
    | nil =>
        cases hrun
        simp [place, hs] at hplace
    | append_singleton es e ih =>
        obtain ⟨x, hx, hlast⟩ := Runs.run_append.mp hrun
        obtain ⟨y, hstep, hy⟩ := Runs.run_cons.mp hlast
        cases hy
        by_cases he : e = .turn n
        · subst he
          obtain ⟨hreleased, hfree⟩ :=
            (looked_of_turn (move_of_step hstep) own).mp hplace
          exact ⟨es, [], x, rfl, List.not_mem_nil, hx, hreleased, hfree⟩
        · have hbefore :=
            (looked_of_move (move_of_step hstep) he own false).mp hplace
          obtain ⟨before, after, w₀, hfound⟩ := ih hx hbefore
          refine ⟨before, after ++ [e], w₀, ?_, ?_, hfound.run,
            hfound.released, hfound.free⟩
          · rw [hfound.split, List.append_assoc, List.cons_append]
          · intro hmem
            rcases List.mem_append.mp hmem with hmem | hmem
            · exact hfound.last hmem
            · exact he (List.mem_singleton.mp hmem).symm
  · rintro ⟨before, after, w₀, hfound⟩
    rw [hfound.split] at hrun
    obtain ⟨y, hstep, hafter⟩ :=
      Runs.run_cons.mp (Runs.run_rest hfound.run hrun)
    rw [looked_of_run hfound.last hafter]
    exact (looked_of_turn (move_of_step hstep) own).mpr
      ⟨hfound.released, hfound.free⟩

/-- A connection of the client of visit `n` is stored that was admitted after
the visit had looked and before it withdraws. -/
def Overtaken (s : Lobby) (es : List Event) (w : Lobby) (n : Nat)
    (client : Bytes) : Prop :=
  ∃ own before after w₀ other, own.id = client ∧
    FoundNone s es n own before after w₀ ∧
    w.stored client = some other ∧ w₀.visits.length ≤ other.key

/-- A step of teardown takes a subscription from a client while the pool holds
the connection of another visit of the client exactly if that connection has
overtaken the visit. -/
theorem strips_iff_overtaken {limiter : Limiter} {feed : Feed.Client}
    {releaseOnIdle : Bool} {es : List Event} {w w' : Lobby} {n : Nat}
    (hrun : Runs.run step (start limiter feed releaseOnIdle) es = some w)
    (hstep : w.step (.turn n) = some w') (client symbol : Bytes) :
    (w.Subscribed client symbol ∧ ¬ w'.Subscribed client symbol ∧
      ∃ other, w.stored client = some other ∧ other.key ≠ n) ↔
    w.Subscribed client symbol ∧
      Overtaken (start limiter feed releaseOnIdle) es w n client := by
  refine and_congr_right fun hsub => ?_
  rw [lost_iff (move_of_step hstep) hsub]
  constructor
  · rintro ⟨⟨own, hplace, hid⟩, other, hstored, -⟩
    obtain ⟨before, after, w₀, hfound⟩ := (looked_iff rfl hrun).mp hplace
    refine ⟨own, before, after, w₀, other, hid, hfound, hstored, ?_⟩
    rw [hfound.split] at hrun
    have hrest := Runs.run_rest hfound.run hrun
    rcases (stored_of_run hrest).2 client other hstored with hbefore | hnew
    · rw [← hid, hfound.free] at hbefore
      cases hbefore
    · exact hnew
  · rintro ⟨own, before, after, w₀, other, hid, hfound, hstored, hkey⟩
    refine ⟨⟨own, (looked_iff rfl hrun).mpr ⟨before, after, w₀, hfound⟩, hid⟩,
      other, hstored, ?_⟩
    have hlt := lt_of_place hfound.released
    omega

/-- A client subscribes and leaves. Its visit has looked and found nobody when
the client comes again and subscribes to something else. -/
def overtakenTeardown : List Event :=
  [.arrive ⟨0⟩ [97] ⟨[97], 1, [], true, 0⟩,
    .receive 0 (utf8 "\x7b\"type\":\"subscribe\",\"symbol\":\"A\"\x7d"),
    .hangUp 0, .turn 0, .turn 0,
    .arrive ⟨1⟩ [97] ⟨[97], 1, [], true, 0⟩,
    .receive 1 (utf8 "\x7b\"type\":\"subscribe\",\"symbol\":\"B\"\x7d")]

/-- The next step of the first visit takes both subscriptions from the second
one. -/
theorem overtakenTeardown_strips :
    ∃ w w', Runs.run step (start ⟨60, 2, .empty⟩ {} false) overtakenTeardown =
        some w ∧
      w.step (.turn 0) = some w' ∧ w.stored [97] = some ⟨1, [97]⟩ ∧
      ∀ symbol ∈ [[65], [66]], w.Subscribed [97] symbol ∧
        ¬ w'.Subscribed [97] symbol := by
  have hseen :
      (Runs.run step (start ⟨60, 2, .empty⟩ {} false) overtakenTeardown).bind
          (fun w => (w.step (.turn 0)).map fun w' =>
            (w.stored [97], w.hub.registry.clients [65],
              w.hub.registry.clients [66], w'.hub.registry.clients [65],
              w'.hub.registry.clients [66])) =
        some (some ⟨1, [97]⟩, [[97]], [[97]], [], []) := rfl
  obtain ⟨w, hrun, hnext⟩ := Option.bind_eq_some_iff.mp hseen
  obtain ⟨w', hstep, hfields⟩ := Option.map_eq_some_iff.mp hnext
  simp only [Prod.mk.injEq] at hfields
  obtain ⟨hstored, hA, hB, hA', hB'⟩ := hfields
  refine ⟨w, w', hrun, hstep, hstored, fun symbol hsymbol => ?_⟩
  unfold Subscribed
  simp only [List.mem_cons, List.not_mem_nil, or_false] at hsymbol
  rcases hsymbol with rfl | rfl
  · rw [hA, hA']
    exact ⟨List.mem_cons_self, List.not_mem_nil⟩
  · rw [hB, hB']
    exact ⟨List.mem_cons_self, List.not_mem_nil⟩

/-- The second visit of that run has overtaken the first. -/
theorem overtaken_while_leaving :
    ∃ w w', Runs.run step (start ⟨60, 2, .empty⟩ {} false) overtakenTeardown =
        some w ∧
      w.step (.turn 0) = some w' ∧ w.Subscribed [97] [66] ∧
      Overtaken (start ⟨60, 2, .empty⟩ {} false) overtakenTeardown w 0
        [97] := by
  obtain ⟨w, w', hrun, hstep, hstored, hlost⟩ := overtakenTeardown_strips
  obtain ⟨hsub, hgone⟩ := hlost [66] (by simp)
  exact ⟨w, w', hrun, hstep, (strips_iff_overtaken hrun hstep [97] [66]).mp
    ⟨hsub, hgone, ⟨1, [97]⟩, hstored, by decide⟩⟩

/-- So a client that came again may lose its subscriptions to the end of its
earlier visit. -/
theorem not_kept_from_teardown :
    ¬ ∀ (limiter : Limiter) (feed : Feed.Client) (releaseOnIdle : Bool)
        (es : List Event) (w w' : Lobby) (n : Nat) (client symbol : Bytes)
        (other : Connection),
      Runs.run step (start limiter feed releaseOnIdle) es = some w →
      w.step (.turn n) = some w' →
      w.stored client = some other → other.key ≠ n →
      w.Subscribed client symbol →
      w'.Subscribed client symbol := by
  intro hkept
  obtain ⟨w, w', hrun, hstep, hstored, hlost⟩ := overtakenTeardown_strips
  obtain ⟨hsub, hgone⟩ := hlost [66] (by simp)
  exact hgone
    (hkept _ _ _ _ w w' 0 [97] [66] _ hrun hstep hstored (by decide) hsub)

end Lobby
end Server
end TickRelay
