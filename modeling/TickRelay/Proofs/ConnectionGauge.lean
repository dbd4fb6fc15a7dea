import TickRelay.Proofs.PoolCalls

/-!
# The gauge of active connections

A call changes the stored connections first and the gauge later, so between the
two the gauge is off, and it may even be negative. It is off by exactly what
the calls under way still have to count.

**Algorithm.** `Balanced` is the invariant. Each change of the pool has a lemma
on the number of connections stored, in the terms of the chores that follow
from it: a connection that displaces another does not count, and one that is
released counts off only if it was stored.

**Results.** `balanced_of_run` is the invariant along every run, and
`gauge_exact` what it says about a pool without calls under way.
-/

namespace TickRelay
namespace Pool

theorem size_insert (p : Pool) (client : Bytes) (conn : Connection) :
    (p.get? client).toList.length + (p.insert client conn).1.size =
      p.size + 1 := by
  have hlength := (p.perm_members_insert client conn).length_eq
  rwa [List.length_append, List.length_cons, length_members, length_members]
    at hlength

theorem size_remove (p : Pool) (client : Bytes) :
    (p.get? client).toList.length + (p.remove client).1.size = p.size := by
  have hlength := (p.perm_members_remove client).length_eq
  rwa [List.length_append, length_members, length_members] at hlength

theorem size_release (p : Pool) (conn : Connection) :
    (if (p.release conn).2 then [conn] else []).length +
      (p.release conn).1.size = p.size := by
  have hlength := (p.perm_members_release conn).length_eq
  rwa [List.length_append, length_members, length_members] at hlength

end Pool

namespace Turnstile

open Chore

variable {w w' : Turnstile} {e : Event}

/-- The gauge, with what is still to be counted, is the number of stored
connections. -/
def Balanced (w : Turnstile) : Prop :=
  w.gauge + w.pending .countUp - w.pending .countDown = w.hub.pool.size

theorem balanced_start (h : Hub) : (start h).Balanced := rfl

/-- What is to be counted changes by as much as the gauge and the pool do. -/
theorem Balanced.of_trades {gone due : List Chore} {k : Int} (h : w.Balanced)
    (hchores : Trades w w' gone due) (hgauge : w'.gauge = w.gauge + k)
    (hsize : (w'.hub.pool.size : Int) = w.hub.pool.size + k +
      (due.count countUp - due.count countDown) -
      (gone.count countUp - gone.count countDown)) : w'.Balanced := by
  have hup := hchores.pending .countUp
  have hdown := hchores.pending .countDown
  rw [Balanced] at h ⊢
  omega

theorem Balanced.step (h : w.Balanced) (hmove : Move w w' e) :
    w'.Balanced := by
  cases hmove with
  | denied hpool hgauge _ hchores =>
      refine h.of_trades (k := 0) hchores (by omega) ?_
      simp [hpool]
  | admitted hpool hgauge _ hchores =>
      refine h.of_trades (k := 0) hchores (by omega) ?_
      simp [hpool]
  | @removed client hpool hgauge _ hchores =>
      refine h.of_trades (k := 0) hchores (by omega) ?_
      have hsize := w.hub.pool.size_remove client
      rw [hpool, count_up_dismissals, count_down_dismissals, List.count_nil,
        List.count_nil, stored]
      omega
  | @released conn hpool hgauge _ hchores =>
      refine h.of_trades (k := 0) hchores (by omega) ?_
      have hsize := w.hub.pool.size_release conn
      rw [hpool]
      -- A connection that was displaced before is not stored, and counts off
      -- nothing.
      split at hsize
      case isTrue howner =>
        simp [howner] at hsize ⊢
        omega
      case isFalse howner =>
        simp [howner] at hsize ⊢
        omega
  | @cleared order horder hpool hgauge _ hchores =>
      refine h.of_trades (k := 0) hchores (by omega) ?_
      have hlength : order.length = w.hub.pool.size :=
        horder.length_eq.trans w.hub.pool.length_members
      have hempty : w'.hub.pool.size = 0 := by
        rw [hpool]
        rfl
      rw [hempty, count_up_dismissals, count_down_dismissals, List.count_nil,
        List.count_nil, hlength]
      omega
  | @stored n client conn hpool hgauge _ hchores =>
      refine h.of_trades (k := 0) hchores (by omega) ?_
      have hsize := w.hub.pool.size_insert client conn
      have hup := count_up_sequel (w.stored client)
      rw [Turnstile.stored] at hup
      have hstore : [store client conn].count countUp = 0 ∧
          [store client conn].count countDown = 0 :=
        ⟨rfl, rfl⟩
      rw [hpool, count_down_sequel, hstore.1, hstore.2, Turnstile.stored]
      omega
  | countedUp hpool hgauge _ hchores =>
      refine h.of_trades (k := 1) hchores hgauge ?_
      simp [hpool]
  | countedDown hpool hgauge _ hchores =>
      refine h.of_trades (k := -1) hchores hgauge ?_
      have hdown : [countDown].count countUp = 0 ∧
          [countDown].count countDown = 1 := ⟨rfl, rfl⟩
      rw [hpool, hdown.1, hdown.2, List.count_nil, List.count_nil]
      omega
  | closed hpool hgauge _ hchores =>
      refine h.of_trades (k := 0) hchores (by omega) ?_
      simp [hpool]
  | outside hpool hgauge _ hchores =>
      refine h.of_trades (k := 0) hchores (by omega) ?_
      simp [hpool]

theorem balanced_of_run {h : Hub} {es : List Event}
    (hrun : Runs.run step (start h) es = some w) : w.Balanced :=
  Runs.run_invariant
    (fun _ _ _ hbalanced hstep => hbalanced.step (move_of_step hstep))
    (balanced_start h) hrun

/-- In whatever order calls of the pool and their later steps happen, the gauge
of active connections is the number of stored connections up to what is still
to be counted. So it is that number when no call is under way, and a connection
that is not admitted changes neither. -/
theorem gauge_exact {h : Hub} {es : List Event} {w : Turnstile}
    (hrun : Runs.run step (start h) es = some w) :
    w.hub.metrics.activeConnections + w.pending .countUp -
      w.pending .countDown = w.hub.pool.size ∧
    (w.Quiet → w.hub.metrics.activeConnections = w.hub.pool.size ∧
      0 ≤ w.hub.metrics.activeConnections) ∧
    ∀ now client conn fault, (w.hub.connect now client conn).2 = .error fault →
      ∃ w', w.step (.ask now client conn) = some w' ∧
        w'.hub.pool = w.hub.pool ∧ w'.hub.metrics = w.hub.metrics ∧
        w'.calls = w.calls := by
  have hbalanced :
      w.hub.metrics.activeConnections + w.pending .countUp -
        w.pending .countDown = w.hub.pool.size := balanced_of_run hrun
  refine ⟨hbalanced, fun hquiet => ?_, fun now client conn fault hdenied => ?_⟩
  · have hup := hquiet.pending_eq .countUp
    have hdown := hquiet.pending_eq .countDown
    omega
  · obtain ⟨hstep, limiter, hhub⟩ := step_ask_denied hdenied
    refine ⟨_, hstep, ?_⟩
    rw [hhub]
    exact ⟨rfl, rfl, rfl⟩

/-- A connection is taken out before it was counted: it is counted off first.
Later the client comes again, and a third time, which is one time too many. -/
def hastyRemoval : List Event :=
  [.ask ⟨0⟩ [97] ⟨0, [97]⟩, .turn 0, .remove [97], .turn 1, .turn 0, .turn 1,
    .ask ⟨1⟩ [97] ⟨1, [97]⟩, .turn 2, .turn 2, .ask ⟨2⟩ [97] ⟨2, [97]⟩]

/-- In the middle the gauge is negative, with one connection still to be
counted; in the end it is the number of stored connections. -/
theorem gauge_exact_of_hasty_removal :
    (∃ u, Runs.run step (start { limiter := ⟨60, 2, .empty⟩ })
        (hastyRemoval.take 4) = some u ∧
      u.hub.metrics.activeConnections = -1 ∧ u.pending .countUp = 1 ∧
      u.hub.metrics.activeConnections + u.pending .countUp -
        u.pending .countDown = u.hub.pool.size) ∧
    ∃ w, Runs.run step (start { limiter := ⟨60, 2, .empty⟩ }) hastyRemoval =
        some w ∧
      w.Quiet ∧ w.hub.pool.size = 1 ∧
      w.hub.metrics.activeConnections = w.hub.pool.size := by
  have hmiddle :
      (Runs.run step (start { limiter := ⟨60, 2, .empty⟩ })
        (hastyRemoval.take 4)).map (fun u =>
        (u.hub.metrics.activeConnections, u.pending .countUp)) =
      some (-1, 1) := rfl
  have hend :
      (Runs.run step (start { limiter := ⟨60, 2, .empty⟩ }) hastyRemoval).map
      (fun w => (w.calls, w.hub.pool.size)) = some ([[], [], []], 1) := rfl
  obtain ⟨u, hu, hnegative⟩ := Option.map_eq_some_iff.mp hmiddle
  obtain ⟨w, hw, hdone⟩ := Option.map_eq_some_iff.mp hend
  obtain ⟨hgauge, hup⟩ := Prod.mk.inj hnegative
  obtain ⟨hcalls, hsize⟩ := Prod.mk.inj hdone
  have hquiet : w.Quiet := by
    rw [Quiet, hcalls]
    simp
  exact ⟨⟨u, hu, hgauge, hup, (gauge_exact hu).1⟩, w, hw, hquiet, hsize,
    ((gauge_exact hw).2.1 hquiet).1⟩

end Turnstile
end TickRelay
