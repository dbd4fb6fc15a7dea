import TickRelay.Proofs.PoolCalls
import Mathlib.Data.List.Nodup

/-!
# Who closes a connection

A connection leaves the pool because another one of its client takes its place,
because it is removed, because all connections are, or because it ended and is
released. The pool closes it in the first three cases, after the change and
outside of it, so that calls of the same client may overtake each other.

**Input.** A run in which every connection asks for admission once and under
its own client.

**Algorithm.** A connection waits to be stored, is stored, or is closed or
about to be: `tally` adds these places up. `Passage` says what one event does
to the sum: it grows only when the connection asks, it shrinks only when the
connection is released, and what is closed or about to be stays so.

**Results.** `passage_of_move` is the law of one event and `tally_of_run` that
of a run. A connection that asks once has a tally of one at most, and so
`ownership`.
-/

namespace TickRelay
namespace Turnstile

open Chore

namespace Event

/-- The connection that asks for admission. -/
def asking? : Event → Option Connection
  | ask _ _ conn => some conn
  | remove _ | release _ | closeAll _ | turn _ | outside _ _ _ _ => none

/-- How often a connection asks in an event. -/
def asks (conn : Connection) (e : Event) : Nat := e.asking?.toList.count conn

/-- A connection that asks does so under its own client. -/
def OwnClient : Event → Prop
  | ask _ client conn => conn.id = client
  | remove _ | release _ | closeAll _ | turn _ | outside _ _ _ _ => True

end Event

/-- The connections that ask for admission in a run. -/
def asked (es : List Event) : List Connection := es.filterMap Event.asking?

theorem count_asked_cons (conn : Connection) (e : Event) (es : List Event) :
    (asked (e :: es)).count conn = e.asks conn + (asked es).count conn := by
  rw [asked, Event.asks]
  cases h : e.asking? with
  | none =>
      rw [List.filterMap_cons_none h, Option.toList_none, List.count_nil,
        Nat.zero_add, asked]
  | some c =>
      rw [List.filterMap_cons_some h, Option.toList_some, ← asked,
        ← List.count_append]
      rfl

theorem count_asked_append (conn : Connection) (es fs : List Event) :
    (asked (es ++ fs)).count conn =
      (asked es).count conn + (asked fs).count conn := by
  rw [asked, List.filterMap_append, List.count_append, asked, asked]

variable {w w' : Turnstile} {e : Event} {client : Bytes} {conn : Connection}

section Owned

/-- Connections are stored under their own clients, also those that wait to
be. -/
structure Owned (w : Turnstile) : Prop where
  stored : ∀ client conn, w.stored client = some conn → conn.id = client
  waiting : ∀ client conn, .store client conn ∈ w.chores → conn.id = client

theorem owned_start (h : Hub) : (start h).Owned where
  stored client conn hstored := by cases hstored
  waiting client conn hwaiting := by cases hwaiting

/-- What is stored after an event was stored before, or waited for it. -/
theorem stored_of_move (hmove : Move w w' e)
    (hafter : w'.stored client = some conn) :
    w.stored client = some conn ∨ .store client conn ∈ w.chores := by
  rw [stored] at hafter ⊢
  cases hmove with
  | denied hpool => exact Or.inl (hpool ▸ hafter)
  | admitted hpool => exact Or.inl (hpool ▸ hafter)
  | removed hpool =>
      rw [hpool, Pool.get?_remove] at hafter
      split at hafter
      · cases hafter
      · exact Or.inl hafter
  | released hpool =>
      rw [hpool, Pool.get?_release] at hafter
      split at hafter
      · cases hafter
      · exact Or.inl hafter
  | cleared _ hpool =>
      rw [hpool, Pool.get?_clear] at hafter
      cases hafter
  | stored hpool _ _ hchores =>
      rw [hpool, Pool.get?_insert] at hafter
      split at hafter
      case isTrue hclient =>
        cases hafter
        rw [hclient]
        exact Or.inr (hchores.mem_gone List.mem_cons_self)
      case isFalse => exact Or.inl hafter
  | countedUp hpool => exact Or.inl (hpool ▸ hafter)
  | countedDown hpool => exact Or.inl (hpool ▸ hafter)
  | closed hpool => exact Or.inl (hpool ▸ hafter)
  | outside hpool => exact Or.inl (hpool ▸ hafter)

/-- A connection that waits to be stored did so before, or was just
admitted. -/
theorem waiting_of_move (hmove : Move w w' e)
    (hafter : .store client conn ∈ w'.chores) :
    .store client conn ∈ w.chores ∨ ∃ now, e = .ask now client conn := by
  cases hmove with
  | denied _ _ _ hchores =>
      exact Or.inl ((hchores.mem hafter).resolve_left List.not_mem_nil)
  | @admitted now c d _ _ _ hchores =>
      rcases hchores.mem hafter with hdue | hbefore
      · cases List.mem_singleton.mp hdue
        exact Or.inr ⟨now, rfl⟩
      · exact Or.inl hbefore
  | removed _ _ _ hchores =>
      exact Or.inl ((hchores.mem hafter).resolve_left (by simp [dismissal]))
  | released _ _ _ hchores =>
      refine Or.inl ((hchores.mem hafter).resolve_left ?_)
      split <;> simp
  | cleared _ _ _ _ hchores =>
      exact Or.inl ((hchores.mem hafter).resolve_left (by simp [dismissal]))
  | stored _ _ _ hchores =>
      refine Or.inl ((hchores.mem hafter).resolve_left ?_)
      cases w.stored _ <;> simp [sequel]
  | countedUp _ _ _ hchores =>
      exact Or.inl ((hchores.mem hafter).resolve_left List.not_mem_nil)
  | countedDown _ _ _ hchores =>
      exact Or.inl ((hchores.mem hafter).resolve_left List.not_mem_nil)
  | closed _ _ _ hchores =>
      exact Or.inl ((hchores.mem hafter).resolve_left List.not_mem_nil)
  | outside _ _ _ hchores =>
      exact Or.inl ((hchores.mem hafter).resolve_left List.not_mem_nil)

theorem Owned.step (h : w.Owned) (hmove : Move w w' e) (hown : e.OwnClient) :
    w'.Owned where
  stored client conn hafter := by
    rcases stored_of_move hmove hafter with hbefore | hwaited
    · exact h.stored client conn hbefore
    · exact h.waiting client conn hwaited
  waiting client conn hafter := by
    rcases waiting_of_move hmove hafter with hbefore | ⟨now, rfl⟩
    · exact h.waiting client conn hbefore
    · exact hown

end Owned

section Tally

/-- How often a connection waits to be stored. -/
def waiting (w : Turnstile) (conn : Connection) : Nat :=
  w.chores.countP (stores conn)

/-- How often a connection is stored. -/
def held (w : Turnstile) (conn : Connection) : Nat :=
  w.hub.pool.members.count conn

/-- How often a connection was closed or is about to be. -/
def closings (w : Turnstile) (conn : Connection) : Nat :=
  w.pending (.close conn) + w.closed.count conn

def tally (w : Turnstile) (conn : Connection) : Nat :=
  w.waiting conn + w.held conn + w.closings conn

/-- The connection that an event takes out without closing it. -/
def parted (w : Turnstile) : Event → List Connection
  | .release conn => if (w.hub.pool.release conn).2 then [conn] else []
  | .ask _ _ _ | .remove _ | .closeAll _ | .turn _ | .outside _ _ _ _ => []

/-- How a connection passes from one place to the next. -/
structure Passage (w w' : Turnstile) (e : Event) (conn : Connection) :
    Prop where
  gained : w'.tally conn + (w.parted e).count conn ≤ w.tally conn + e.asks conn
  kept : w.tally conn ≤ w'.tally conn + (w.parted e).count conn
  queued : w'.waiting conn ≤ w.waiting conn + e.asks conn
  closing : w.closings conn ≤ w'.closings conn

namespace Passage

/-- A connection begins to wait, is seated, or is lost and to be closed, so
many times. -/
theorem of_flow (entered seated lost : Nat)
    (hwaiting : w'.waiting conn + seated = w.waiting conn + entered)
    (hheld : lost + (w.parted e).count conn + w'.held conn =
      w.held conn + seated)
    (hclosings : w'.closings conn = w.closings conn + lost)
    (hentered : entered ≤ e.asks conn) : Passage w w' e conn := by
  constructor
  · rw [tally, tally]
    omega
  · rw [tally, tally]
    omega
  · omega
  · omega

/-- The pool stays as it is, and nothing is to be closed. -/
theorem of_same_pool {gone due : List Chore} (hchores : Trades w w' gone due)
    (hpool : w'.hub.pool = w.hub.pool) (hparted : w.parted e = [])
    (hclosings : w'.closings conn = w.closings conn)
    (hgone : gone.countP (stores conn) = 0)
    (hdue : due.countP (stores conn) ≤ e.asks conn) : Passage w w' e conn := by
  refine of_flow (due.countP (stores conn)) 0 0 ?_ ?_ hclosings hdue
  · have hwaiting := hchores.countP (stores conn)
    rw [hgone] at hwaiting
    exact hwaiting
  · rw [hparted, held, hpool, List.count_nil, Nat.zero_add]
    rfl

end Passage

theorem closings_eq {gone due : List Chore} (conn : Connection)
    (hchores : Trades w w' gone due) (hgone : gone.count (.close conn) = 0)
    (hclosed : w'.closed = w.closed) :
    w'.closings conn = w.closings conn + due.count (.close conn) := by
  have hpending := hchores.pending (.close conn)
  rw [closings, closings, hclosed]
  omega

theorem passage_of_move (hmove : Move w w' e) (conn : Connection) :
    Passage w w' e conn := by
  cases hmove with
  | denied hpool _ hclosed hchores =>
      exact .of_same_pool hchores hpool rfl
        (closings_eq conn hchores rfl hclosed) rfl (Nat.zero_le _)
  | @admitted now client c hpool _ hclosed hchores =>
      refine .of_same_pool hchores hpool rfl
        (closings_eq conn hchores rfl hclosed) rfl ?_
      exact Nat.le_of_eq (stores_store conn client c)
  | @removed client hpool _ hclosed hchores =>
      have hwaiting := hchores.countP (stores conn)
      have hclosings := closings_eq conn hchores rfl hclosed
      have hheld := (w.hub.pool.perm_members_remove client).count_eq conn
      rw [stores_dismissals] at hwaiting
      rw [count_close_dismissals] at hclosings
      rw [List.count_append, ← hpool] at hheld
      exact .of_flow 0 0 _ hwaiting hheld hclosings (Nat.zero_le _)
  | @released c hpool _ hclosed hchores =>
      have hheld := (w.hub.pool.perm_members_release c).count_eq conn
      rw [List.count_append, ← hpool] at hheld
      have hwaiting := hchores.countP (stores conn)
      have hclosings := closings_eq conn hchores rfl hclosed
      have hnone :
          (if (w.hub.pool.release c).2 then [countDown] else []).countP
            (stores conn) = 0 := by
        split <;> rfl
      have hopen :
          (if (w.hub.pool.release c).2 then [countDown] else []).count
            (.close conn) = 0 := by
        split <;> rfl
      rw [hnone] at hwaiting
      rw [hopen] at hclosings
      refine .of_flow 0 0 0 hwaiting ?_ hclosings (Nat.zero_le _)
      rw [Nat.zero_add]
      exact hheld
  | @cleared order horder hpool _ hclosed hchores =>
      have hwaiting := hchores.countP (stores conn)
      have hclosings := closings_eq conn hchores rfl hclosed
      rw [stores_dismissals] at hwaiting
      rw [count_close_dismissals, horder.count_eq] at hclosings
      refine .of_flow 0 0 _ hwaiting ?_ hclosings (Nat.zero_le _)
      rw [held, hpool]
      rfl
  | @stored n client c hpool _ hclosed hchores =>
      have hwaiting := hchores.countP (stores conn)
      have hclosings := closings_eq conn hchores rfl hclosed
      have hheld := (w.hub.pool.perm_members_insert client c).count_eq conn
      rw [stores_sequel] at hwaiting
      rw [count_close_sequel] at hclosings
      rw [List.count_append, ← hpool, ← List.singleton_append,
        List.count_append, Nat.add_comm ([c].count conn)] at hheld
      rw [stores_store] at hwaiting
      exact .of_flow 0 _ _ hwaiting hheld hclosings (Nat.zero_le _)
  | countedUp hpool _ hclosed hchores =>
      exact .of_same_pool hchores hpool rfl
        (closings_eq conn hchores rfl hclosed) rfl (Nat.zero_le _)
  | countedDown hpool _ hclosed hchores =>
      exact .of_same_pool hchores hpool rfl
        (closings_eq conn hchores rfl hclosed) rfl (Nat.zero_le _)
  | @closed n c hpool _ hclosed hchores =>
      refine .of_same_pool hchores hpool rfl ?_ rfl (Nat.zero_le _)
      have hpending := hchores.pending (.close conn)
      rw [count_close_close, List.count_nil] at hpending
      rw [closings, closings, hclosed, List.count_append]
      omega
  | outside hpool _ hclosed hchores =>
      exact .of_same_pool hchores hpool rfl
        (closings_eq conn hchores rfl hclosed) rfl (Nat.zero_le _)

theorem tally_of_run {s : Turnstile} {es : List Event}
    (hrun : Runs.run step s es = some w) (conn : Connection) :
    w.tally conn ≤ s.tally conn + (asked es).count conn ∧
    s.closings conn ≤ w.closings conn := by
  induction es generalizing s with
  | nil =>
      cases hrun
      exact ⟨Nat.le_refl _, Nat.le_refl _⟩
  | cons e es ih =>
      obtain ⟨u, hstep, hrest⟩ := Runs.run_cons.mp hrun
      have hpassage := passage_of_move (move_of_step hstep) conn
      obtain ⟨htally, hclosings⟩ := ih hrest
      have hgained := hpassage.gained
      have hclosing := hpassage.closing
      rw [count_asked_cons]
      omega

theorem owned_of_run {s : Turnstile} {es : List Event} (h : s.Owned)
    (hown : ∀ e ∈ es, e.OwnClient) (hrun : Runs.run step s es = some w) :
    w.Owned := by
  induction es generalizing s with
  | nil =>
      cases hrun
      exact h
  | cons e es ih =>
      obtain ⟨u, hstep, hrest⟩ := Runs.run_cons.mp hrun
      have hu := h.step (move_of_step hstep) (hown e List.mem_cons_self)
      exact ih hu (fun d hd => hown d (List.mem_cons_of_mem e hd)) hrest

theorem tally_start (h : Hub) (conn : Connection) : (start h).tally conn = 0 :=
  rfl

theorem one_le_held (hstored : w.stored client = some conn) :
    1 ≤ w.held conn :=
  List.one_le_count_iff.mpr (Pool.mem_members.mpr ⟨client, hstored⟩)

theorem Owned.held_eq_zero (h : w.Owned)
    (hother : w.stored conn.id ≠ some conn) : w.held conn = 0 := by
  refine List.count_eq_zero.mpr fun hmember => ?_
  obtain ⟨client, hstored⟩ := Pool.mem_members.mp hmember
  have hclient := h.stored client conn hstored
  rw [hclient] at hother
  exact hother hstored

end Tally

section Ends

/-- Somewhere in a run an event leads from one state to another. -/
def Passes (s : Turnstile) (es : List Event) (u : Turnstile) (e : Event)
    (u' : Turnstile) : Prop :=
  ∃ fs gs, es = fs ++ e :: gs ∧ Runs.run step s fs = some u ∧
    u.step e = some u'

/-- In a run a connection loses its place, and not because it is released. -/
def Displaced (s : Turnstile) (es : List Event) (conn : Connection) : Prop :=
  ∃ u e u' client, Passes s es u e u' ∧ u.stored client = some conn ∧
    u'.stored client ≠ some conn ∧
    ∀ c, e ≠ .release c

/-- In a run a connection is released that was stored. -/
def Released (s : Turnstile) (es : List Event) (conn : Connection) : Prop :=
  ∃ u u', Passes s es u (.release conn) u' ∧ (u.hub.pool.release conn).2 = true

theorem release_iff (p : Pool) (conn : Connection) :
    (p.release conn).2 = true ↔ p.get? conn.id = some conn := by
  rw [Pool.release]
  split
  case isTrue hstored => exact iff_of_true rfl hstored
  case isFalse hother => exact iff_of_false Bool.false_ne_true hother

variable {s u u' : Turnstile} {es : List Event}

theorem passes_of_runs {fs gs : List Event}
    (hbefore : Runs.run step s fs = some u)
    (hafter : Runs.run step s (fs ++ [e]) = some u') :
    Passes s (fs ++ e :: gs) u e u' := by
  obtain ⟨t', hstep, hnil⟩ := Runs.run_cons.mp (Runs.run_rest hbefore hafter)
  cases hnil
  exact ⟨fs, gs, rfl, hbefore, hstep⟩

/-- What is left of a run after an event. -/
theorem Passes.rest (h : Passes s es u e u')
    (hrun : Runs.run step s es = some w) :
    ∃ fs gs, es = fs ++ e :: gs ∧ Runs.run step s fs = some u ∧
      Runs.run step u' gs = some w := by
  obtain ⟨fs, gs, rfl, hbefore, hstep⟩ := h
  obtain ⟨t', ht', hafter⟩ := Runs.run_cons.mp (Runs.run_rest hbefore hrun)
  rw [hstep] at ht'
  cases ht'
  exact ⟨fs, gs, rfl, hbefore, hafter⟩

/-- A stored connection that asks once does not ask in the rest of a run. -/
theorem tally_of_passes {h : Hub} (hfresh : (asked es).Nodup)
    (hpass : Passes (start h) es u e u')
    (hrun : Runs.run step (start h) es = some w) (hheld : 1 ≤ u.held conn) :
    u.tally conn ≤ 1 ∧ e.asks conn = 0 ∧ w.tally conn ≤ u'.tally conn ∧
      u'.closings conn ≤ w.closings conn := by
  -- What is stored has asked before, and with that its only request is spent.
  obtain ⟨fs, gs, rfl, hbefore, hafter⟩ := hpass.rest hrun
  have honce := List.nodup_iff_count_le_one.mp hfresh conn
  rw [count_asked_append, count_asked_cons] at honce
  obtain ⟨htally, -⟩ := tally_of_run hbefore conn
  obtain ⟨hrest, hclosings⟩ := tally_of_run hafter conn
  rw [tally_start] at htally
  have hplaces : u.held conn ≤ u.tally conn := by
    rw [tally]
    omega
  omega

/-- A connection that is displaced is about to be closed. -/
theorem closings_of_displaced (hu : u.Owned) (hu' : u'.Owned)
    (hstep : u.step e = some u') (hbefore : u.stored client = some conn)
    (hafter : u'.stored client ≠ some conn) (hother : ∀ c, e ≠ .release c)
    (htally : u.tally conn ≤ 1) (hasks : e.asks conn = 0) :
    1 ≤ u'.closings conn := by
  have hpassage := passage_of_move (move_of_step hstep) conn
  have hparted : u.parted e = [] := by
    cases e with
    | release c => exact absurd rfl (hother c)
    | _ => rfl
  have hkept := hpassage.kept
  have hqueued := hpassage.queued
  have hheld := one_le_held hbefore
  -- It could be stored only under its own client, where it no longer is.
  have hgone : u'.held conn = 0 := by
    rw [← hu.stored client conn hbefore] at hafter
    exact hu'.held_eq_zero hafter
  have hplaces : u.waiting conn + u.held conn + u.closings conn ≤ 1 := htally
  rw [hparted, List.count_nil, tally, tally] at hkept
  omega

theorem tally_of_release (hstep : u.step (.release conn) = some u')
    (howner : (u.hub.pool.release conn).2 = true) :
    u'.tally conn + 1 ≤ u.tally conn := by
  have hgained := (passage_of_move (move_of_step hstep) conn).gained
  have hparted : u.parted (.release conn) = [conn] := if_pos howner
  have hasks : Event.asks conn (.release conn) = 0 := rfl
  rw [hparted, hasks, List.count_cons_self, List.count_nil] at hgained
  exact hgained

variable {h : Hub}

theorem tally_le_one (hrun : Runs.run step (start h) es = some w)
    (hfresh : (asked es).Nodup) (conn : Connection) : w.tally conn ≤ 1 := by
  obtain ⟨htally, -⟩ := tally_of_run hrun conn
  have hcount := List.nodup_iff_count_le_one.mp hfresh conn
  rw [tally_start] at htally
  omega

/-- A displaced connection is closed once in the end, and it never comes to a
second time. -/
theorem closings_eq_one (hrun : Runs.run step (start h) es = some w)
    (hown : ∀ e ∈ es, e.OwnClient) (hfresh : (asked es).Nodup)
    (hdisplaced : Displaced (start h) es conn) : w.closings conn = 1 := by
  obtain ⟨u, e, u', client, hpass, hbefore, hafter, hother⟩ := hdisplaced
  obtain ⟨htally, hasks, -, hlater⟩ :=
    tally_of_passes hfresh hpass hrun (one_le_held hbefore)
  obtain ⟨fs, gs, rfl, hfs, hstep⟩ := hpass
  have hu :=
    owned_of_run (owned_start h)
      (fun d hd => hown d (List.mem_append_left _ hd)) hfs
  have hu' :=
    hu.step (move_of_step hstep)
      (hown e (List.mem_append_right _ List.mem_cons_self))
  have hone :=
    closings_of_displaced hu hu' hstep hbefore hafter hother htally hasks
  have hw := tally_le_one hrun hfresh conn
  rw [tally] at hw
  omega

/-- A released connection is in no place any more. -/
theorem tally_eq_zero (hrun : Runs.run step (start h) es = some w)
    (hfresh : (asked es).Nodup) (hreleased : Released (start h) es conn) :
    w.tally conn = 0 := by
  obtain ⟨u, u', hpass, howner⟩ := hreleased
  have hstored : u.stored conn.id = some conn := (release_iff _ _).mp howner
  obtain ⟨htally, -, hlater, -⟩ :=
    tally_of_passes hfresh hpass hrun (one_le_held hstored)
  obtain ⟨fs, gs, -, -, hstep⟩ := hpass
  have hrelease := tally_of_release hstep howner
  omega

end Ends

/-- What holds of the connections at the end of a run. -/
structure Ownership (s w : Turnstile) (es : List Event) : Prop where
  own_client : ∀ client conn, w.stored client = some conn → conn.id = client
  /-- A displaced connection is closed once, or one call is about to close
  it. -/
  displaced : ∀ conn, Displaced s es conn →
    w.closed.count conn + w.pending (.close conn) = 1
  /-- When no call is under way it is closed. -/
  closed_once : w.Quiet → ∀ conn, Displaced s es conn → w.closed.count conn = 1
  stored_open : ∀ client conn, w.stored client = some conn → conn ∉ w.closed
  /-- A release changes the entry of the connection itself and no other. -/
  release_entry : ∀ conn client, (w.hub.pool.release conn).1.get? client =
    if client = conn.id ∧ w.stored client = some conn then none
    else w.stored client
  release_answer : ∀ conn, (w.hub.pool.release conn).2 = true ↔
    w.stored conn.id = some conn
  /-- After a release of a stored connection any further one has no effect. -/
  released_once : ∀ conn, Released s es conn →
    (w.hub.pool.release conn).2 = false ∧ conn ∉ w.closed
  /-- The calls under way can come to their end. -/
  settles : ∃ (ns : List Nat) (w' : Turnstile),
    Runs.run step w (ns.map .turn) = some w' ∧ w'.Quiet

/-- In whatever order connections come and go, the pool closes exactly once
what it displaces, and nothing that is stored, as long as each connection asks
for admission once and under its own client. -/
theorem ownership {h : Hub} {es : List Event} {w : Turnstile}
    (hrun : Runs.run step (start h) es = some w) (hown : ∀ e ∈ es, e.OwnClient)
    (hfresh : (asked es).Nodup) : Ownership (start h) w es := by
  refine ⟨(owned_of_run (owned_start h) hown hrun).stored, ?_, ?_, ?_,
    ?_, ?_, ?_, settles w⟩
  · intro conn hdisplaced
    rw [Nat.add_comm]
    exact closings_eq_one hrun hown hfresh hdisplaced
  · intro hquiet conn hdisplaced
    have hone := closings_eq_one hrun hown hfresh hdisplaced
    rwa [closings, hquiet.pending_eq, Nat.zero_add] at hone
  · intro client conn hstored hclosed
    have htally := tally_le_one hrun hfresh conn
    have hheld := one_le_held hstored
    have hcount := List.one_le_count_iff.mpr hclosed
    rw [tally, closings] at htally
    omega
  · exact fun conn client => Pool.get?_release _ client conn
  · exact fun conn => release_iff _ conn
  · intro conn hreleased
    have hnowhere := tally_eq_zero hrun hfresh hreleased
    rw [tally, closings] at hnowhere
    constructor
    · rw [← Bool.not_eq_true, release_iff]
      intro hstored
      have hheld := one_le_held hstored
      omega
    · intro hclosed
      have hcount := List.one_le_count_iff.mpr hclosed
      omega

/-- The connection of a client is replaced, and its successor is removed before
the first one is closed. Two more connections come: one ends by itself, the
other is still there when all are taken out. Only then the calls come
to their end. -/
def overlappingEnds : List Event :=
  [.ask ⟨0⟩ [97] ⟨0, [97]⟩, .turn 0, .turn 0, .ask ⟨1⟩ [97] ⟨1, [97]⟩,
    .turn 1, .remove [97],
    .ask ⟨2⟩ [98] ⟨2, [98]⟩, .turn 3, .ask ⟨3⟩ [97] ⟨3, [97]⟩, .turn 4,
    .release ⟨3, [97]⟩, .release ⟨0, [97]⟩, .closeAll [⟨2, [98]⟩],
    .turn 7, .turn 7, .turn 5, .turn 4, .turn 3, .turn 2, .turn 2, .turn 1]

/-- The first connection is closed once though its successor was taken out
before, and the one that ended by itself is not closed by the pool. -/
theorem ownership_of_overlapping_ends :
    ∃ w, Runs.run step (start { limiter := ⟨60, 3, .empty⟩ }) overlappingEnds =
        some w ∧
      (∀ e ∈ overlappingEnds, e.OwnClient) ∧ (asked overlappingEnds).Nodup ∧
      Displaced (start { limiter := ⟨60, 3, .empty⟩ }) overlappingEnds
        ⟨0, [97]⟩ ∧
      w.closed.count ⟨0, [97]⟩ = 1 ∧
      Released (start { limiter := ⟨60, 3, .empty⟩ }) overlappingEnds
        ⟨3, [97]⟩ ∧
      (w.hub.pool.release ⟨3, [97]⟩).2 = false ∧ ⟨3, [97]⟩ ∉ w.closed := by
  have hends :
      (Runs.run step (start { limiter := ⟨60, 3, .empty⟩ })
        overlappingEnds).map (·.calls) =
          some [[], [], [], [], [], [], [], []] := rfl
  obtain ⟨w, hrun, hcalls⟩ := Option.map_eq_some_iff.mp hends
  have hquiet : w.Quiet := by
    rw [Quiet, hcalls]
    decide
  have hown : ∀ e ∈ overlappingEnds, e.OwnClient := by
    simp [overlappingEnds, Event.OwnClient]
  have hfresh : (asked overlappingEnds).Nodup := by decide
  have hdisplaced :
      Displaced (start { limiter := ⟨60, 3, .empty⟩ }) overlappingEnds
        ⟨0, [97]⟩ := by
    have hbefore :
        (Runs.run step (start { limiter := ⟨60, 3, .empty⟩ })
          (overlappingEnds.take 4)).map (·.stored [97]) =
        some (some ⟨0, [97]⟩) := rfl
    have hafter :
        (Runs.run step (start { limiter := ⟨60, 3, .empty⟩ })
          (overlappingEnds.take 4 ++ [.turn 1])).map (·.stored [97]) =
        some (some ⟨1, [97]⟩) := rfl
    obtain ⟨u, hu, hfirst⟩ := Option.map_eq_some_iff.mp hbefore
    obtain ⟨u', hu', hsecond⟩ := Option.map_eq_some_iff.mp hafter
    refine ⟨u, .turn 1, u', [97], passes_of_runs hu hu', hfirst,
      ?_, fun c => nofun⟩
    rw [hsecond]
    decide
  have hreleased :
      Released (start { limiter := ⟨60, 3, .empty⟩ }) overlappingEnds
        ⟨3, [97]⟩ := by
    have hbefore :
        (Runs.run step (start { limiter := ⟨60, 3, .empty⟩ })
          (overlappingEnds.take 10)).map (·.stored [97]) =
        some (some ⟨3, [97]⟩) := rfl
    have hafter :
        (Runs.run step (start { limiter := ⟨60, 3, .empty⟩ })
          (overlappingEnds.take 10 ++ [.release ⟨3, [97]⟩])).map
        (·.stored [97]) = some none := rfl
    obtain ⟨u, hu, hlast⟩ := Option.map_eq_some_iff.mp hbefore
    obtain ⟨u', hu', -⟩ := Option.map_eq_some_iff.mp hafter
    exact ⟨u, u', passes_of_runs hu hu', (release_iff _ _).mpr hlast⟩
  have howned := ownership hrun hown hfresh
  exact ⟨w, hrun, hown, hfresh, hdisplaced,
    howned.closed_once hquiet _ hdisplaced, hreleased,
    howned.released_once _ hreleased⟩

end Turnstile
end TickRelay
