import TickRelay.Proofs.HubView
import TickRelay.Proofs.Runs
import TickRelay.Proofs.TableView

/-!
# Pool calls under way

Connections are admitted and taken out at the same time, several of one client
among them. A call changes the stored connections at once. What it has to count
and to close because of that it does afterwards, step by step, and other calls
may come between any two of these steps.

**Algorithm.** `Turnstile.step` is one event. The limiter is asked through
`Limiter.ask`, and the stored connections are changed by `Pool.insert`,
`Pool.remove`, `Pool.release` and `Pool.clear`, which tell the call its chores.
Connections that are taken out together are counted and closed in any order.
Limiter, subscriptions, feed and the other counters may change in any way at
any time.

**Results.** `move_of_step` lists what an event does to the stored connections,
to the gauge, to the connections closed and to the chores that are left.
`settles`: calls under way can always come to their end. `run_connect`,
`run_remove`, `run_release` and `run_closeAll` put a call together again:
without interruption it is the operation of the hub.
-/

namespace TickRelay
namespace Pool

/-- The stored connections. -/
def members (p : Pool) : List Connection := p.clear.2

variable (p : Pool) (client : Bytes) (conn : Connection)

theorem length_members : p.members.length = p.size :=
  List.length_map ..

theorem mem_members {p : Pool} {conn : Connection} :
    conn ∈ p.members ↔ ∃ client, p.get? client = some conn := by
  rw [members, clear, List.mem_map]
  constructor
  · rintro ⟨⟨client, c⟩, he, rfl⟩
    exact ⟨client, (Table.mem_entries_iff _ _ _).mp he⟩
  · rintro ⟨client, hget⟩
    exact ⟨(client, conn), (Table.mem_entries_iff _ _ _).mpr hget, rfl⟩

theorem perm_members_remove :
    ((p.get? client).toList ++ (p.remove client).1.members).Perm p.members :=
  p.conns.perm_values_erase client

theorem perm_members_insert :
    ((p.get? client).toList ++ (p.insert client conn).1.members).Perm
        (conn :: p.members) :=
  List.perm_middle.trans ((p.perm_members_remove client).cons conn)

theorem perm_members_release :
    ((if (p.release conn).2 then [conn] else []) ++
        (p.release conn).1.members).Perm p.members := by
  rw [release]
  by_cases hstored : p.get? conn.id = some conn
  · have hremove := p.perm_members_remove conn.id
    rw [hstored] at hremove
    rw [if_pos hstored]
    exact hremove
  · rw [if_neg hstored]
    exact List.Perm.refl _

end Pool

/-- A step that a call of the pool has to make. -/
inductive Chore where
  /-- Store a connection that was admitted under a client. -/
  | store (client : Bytes) (conn : Connection)
  | countUp
  | countDown
  | close (conn : Connection)
  deriving DecidableEq

namespace Chore

/-- After a connection was stored, the one it displaced is closed; if there was
none, it counts. -/
def sequel : Option Connection → List Chore
  | none => [countUp]
  | some old => [close old]

/-- A connection that was taken out is counted off and closed. -/
def dismissal (conn : Connection) : List Chore := [countDown, close conn]

def isStore : Chore → Bool
  | store _ _ => true
  | countUp | countDown | close _ => false

/-- Whether a chore is to store a connection, under whatever client. -/
def stores (conn : Connection) : Chore → Bool
  | store _ c => c = conn
  | countUp | countDown | close _ => false

theorem length_sequel (displaced : Option Connection) :
    (sequel displaced).length = 1 := by
  cases displaced <;> rfl

theorem countP_sequel (displaced : Option Connection) :
    (sequel displaced).countP isStore = 0 := by
  cases displaced <;> rfl

section Counts

variable (displaced : Option Connection) (conns : List Connection)
  (conn : Connection)

theorem count_up_sequel :
    (sequel displaced).count countUp + displaced.toList.length = 1 := by
  cases displaced <;> simp [sequel]

@[simp] theorem count_down_sequel :
    (sequel displaced).count countDown = 0 := by
  cases displaced <;> simp [sequel]

theorem stores_store (client : Bytes) (c : Connection) :
    [store client c].countP (stores conn) = [c].count conn := by
  simp [stores, List.countP_cons, List.count_cons]

theorem count_close_close (c : Connection) :
    [close c].count (close conn) = [c].count conn := by
  simp [List.count_cons]

@[simp] theorem stores_sequel :
    (sequel displaced).countP (stores conn) = 0 := by
  cases displaced <;> rfl

@[simp] theorem count_close_sequel :
    (sequel displaced).count (close conn) = displaced.toList.count conn := by
  cases displaced <;> simp [sequel, List.count_singleton]

@[simp] theorem count_up_dismissals :
    (conns.flatMap dismissal).count countUp = 0 := by
  induction conns with
  | nil => rfl
  | cons c conns ih => simp [dismissal, ih]

@[simp] theorem count_down_dismissals :
    (conns.flatMap dismissal).count countDown = conns.length := by
  induction conns with
  | nil => rfl
  | cons c conns ih => simp [dismissal, ih]

@[simp] theorem stores_dismissals :
    (conns.flatMap dismissal).countP (stores conn) = 0 := by
  induction conns with
  | nil => rfl
  | cons c conns ih => simpa [dismissal, stores] using ih

@[simp] theorem count_close_dismissals :
    (conns.flatMap dismissal).count (close conn) = conns.count conn := by
  induction conns with
  | nil => rfl
  | cons c conns ih => simp [dismissal, List.count_cons, ih]

end Counts

end Chore

/-- The hub and the calls of its pool under way. -/
structure Turnstile where
  hub : Hub
  /-- What each call still has to do, one step after the other. -/
  calls : List (List Chore) := []
  /-- The connections that the pool closed, in the order in which it did. -/
  closed : List Connection := []

namespace Turnstile

open Chore

/-- What can happen. -/
inductive Event where
  /-- A connection asks for admission under a client. -/
  | ask (now : Instant) (client : Bytes) (conn : Connection)
  /-- The connection of a client is taken out. -/
  | remove (client : Bytes)
  /-- A connection that ended is taken out if it is stored. -/
  | release (conn : Connection)
  /-- All connections are taken out, and dealt with in an order of its own. -/
  | closeAll (order : List Connection)
  /-- A call makes its next step. -/
  | turn (n : Nat)
  /-- Whatever else changes: admissions, subscriptions, the feed, and all
  counters but the gauge. -/
  | outside (limiter : Limiter) (registry : Registry) (feed : Feed.Client)
      (metrics : Metrics)

/-- A hub without connections, and no calls. -/
def start (h : Hub) : Turnstile :=
  { hub := { h with pool := {}, metrics := { h.metrics with
    activeConnections := 0 } } }

/-- A call is under way that has changed the pool. -/
def enter (pool : Pool) (call : List Chore) (w : Turnstile) : Turnstile :=
  { w with hub := { w.hub with pool }, calls := w.calls ++ [call] }

/-- Makes a step of a call: the chores that follow from it. -/
def perform (w : Turnstile) : Chore → Turnstile × List Chore
  | .store client conn =>
    let (pool, displaced) := w.hub.pool.insert client conn
    ({ w with hub := { w.hub with pool } }, sequel displaced)
  | .countUp =>
      ({ w with hub := { w.hub with metrics := w.hub.metrics.connected } }, [])
  | .countDown =>
      ({ w with
        hub := { w.hub with metrics := w.hub.metrics.disconnected } }, [])
  | .close conn => ({ w with closed := w.closed ++ [conn] }, [])

/-- One event. -/
def step (w : Turnstile) : Event → Option Turnstile
  | .ask now client conn =>
    match w.hub.limiter.ask now client with
    | (limiter, false) => some { w with hub := { w.hub with limiter } }
    | (limiter, true) =>
      some { w with
        hub := { w.hub with limiter },
        calls := w.calls ++ [[.store client conn]] }
  | .remove client =>
    let (pool, conn) := w.hub.pool.remove client
    some (w.enter pool (conn.toList.flatMap dismissal))
  | .release conn =>
    let (pool, owner) := w.hub.pool.release conn
    some (w.enter pool (if owner then [.countDown] else []))
  | .closeAll order =>
    let (pool, conns) := w.hub.pool.clear
    if order.isPerm conns then some (w.enter pool (order.flatMap dismissal))
    else none
  | .turn n =>
    match w.calls[n]? with
    | some (chore :: rest) =>
      let (after, more) := w.perform chore
      some { after with calls := w.calls.set n (more ++ rest) }
    | _ => none
  | .outside limiter registry feed metrics =>
    let metrics := { metrics with
      activeConnections := w.hub.metrics.activeConnections }
    some { w with hub := { w.hub with limiter, registry, feed, metrics } }

/-- The stored connection of a client. -/
def stored (w : Turnstile) (client : Bytes) : Option Connection :=
  w.hub.pool.get? client

/-- The gauge of active connections. -/
def gauge (w : Turnstile) : Int := w.hub.metrics.activeConnections

/-- What all calls together still have to do. -/
def chores (w : Turnstile) : List Chore := w.calls.flatten

/-- How often a chore is still to be done. -/
def pending (w : Turnstile) (chore : Chore) : Nat := w.chores.count chore

/-- No call is under way. -/
def Quiet (w : Turnstile) : Prop := ∀ call ∈ w.calls, call = []

variable {w w' : Turnstile} {e : Event}

theorem Quiet.pending_eq (h : w.Quiet) (chore : Chore) :
    w.pending chore = 0 := by
  have hnone : w.chores = [] := List.flatten_eq_nil_iff.mpr h
  rw [pending, hnone]
  rfl

section Trades

/-- Some chores are done, others have come up, and all the rest stays. -/
def Trades (w w' : Turnstile) (gone due : List Chore) : Prop :=
  ∃ rest, w.chores.Perm (gone ++ rest) ∧ w'.chores.Perm (due ++ rest)

theorem Trades.countP {gone due : List Chore} (h : Trades w w' gone due)
    (p : Chore → Bool) :
    w'.chores.countP p + gone.countP p = w.chores.countP p + due.countP p := by
  obtain ⟨rest, hbefore, hafter⟩ := h
  rw [hbefore.countP_eq, hafter.countP_eq, List.countP_append,
    List.countP_append]
  omega

theorem Trades.pending {gone due : List Chore} (h : Trades w w' gone due)
    (chore : Chore) :
    w'.pending chore + gone.count chore = w.pending chore + due.count chore :=
  h.countP (· == chore)

theorem Trades.mem_gone {gone due : List Chore} (h : Trades w w' gone due)
    {chore : Chore} (hchore : chore ∈ gone) : chore ∈ w.chores := by
  obtain ⟨rest, hbefore, -⟩ := h
  exact hbefore.mem_iff.mpr (List.mem_append_left rest hchore)

theorem Trades.mem {gone due : List Chore} (h : Trades w w' gone due)
    {chore : Chore} (hchore : chore ∈ w'.chores) :
    chore ∈ due ∨ chore ∈ w.chores := by
  obtain ⟨rest, hbefore, hafter⟩ := h
  rcases List.mem_append.mp (hafter.mem_iff.mp hchore) with hdue | hrest
  · exact Or.inl hdue
  · exact Or.inr (hbefore.mem_iff.mpr (List.mem_append_right gone hrest))

theorem trades_same (hcalls : w'.calls = w.calls) : Trades w w' [] [] := by
  refine ⟨w.chores, List.Perm.refl _, ?_⟩
  rw [chores, chores, hcalls]
  exact List.Perm.refl _

theorem trades_enter {call : List Chore}
    (hcalls : w'.calls = w.calls ++ [call]) : Trades w w' [] call := by
  refine ⟨w.chores, List.Perm.refl _, ?_⟩
  rw [chores, chores, hcalls, List.flatten_append, List.flatten_singleton]
  exact List.perm_append_comm

theorem trades_turn {n : Nat} {chore : Chore} {left more : List Chore}
    (hcall : w.calls[n]? = some (chore :: left))
    (hcalls : w'.calls = w.calls.set n (more ++ left)) :
    Trades w w' [chore] more := by
  obtain ⟨hlt, hget⟩ := List.getElem?_eq_some_iff.mp hcall
  obtain ⟨before, after, hsplit, -, hset⟩ :=
    @List.exists_of_set _ n (more ++ left) w.calls hlt
  refine ⟨before.flatten ++ (left ++ after.flatten), ?_, ?_⟩
  · rw [chores, hsplit, hget, List.flatten_append, List.flatten_cons]
    exact List.perm_middle
  · rw [chores, hcalls, hset, List.flatten_append, List.flatten_cons,
      List.append_assoc]
    exact List.perm_append_comm_assoc _ _ _

end Trades

/-- What an event does to pool, gauge, closed connections and chores. -/
inductive Move (w w' : Turnstile) : Event → Prop
  | denied {now : Instant} {client : Bytes} {conn : Connection}
      (hpool : w'.hub.pool = w.hub.pool) (hgauge : w'.gauge = w.gauge)
      (hclosed : w'.closed = w.closed) (hchores : Trades w w' [] []) :
      Move w w' (.ask now client conn)
  | admitted {now : Instant} {client : Bytes} {conn : Connection}
      (hpool : w'.hub.pool = w.hub.pool) (hgauge : w'.gauge = w.gauge)
      (hclosed : w'.closed = w.closed)
      (hchores : Trades w w' [] [.store client conn]) :
      Move w w' (.ask now client conn)
  | removed {client : Bytes}
      (hpool : w'.hub.pool = (w.hub.pool.remove client).1)
      (hgauge : w'.gauge = w.gauge) (hclosed : w'.closed = w.closed)
      (hchores : Trades w w' [] ((w.stored client).toList.flatMap dismissal)) :
      Move w w' (.remove client)
  | released {conn : Connection}
      (hpool : w'.hub.pool = (w.hub.pool.release conn).1)
      (hgauge : w'.gauge = w.gauge) (hclosed : w'.closed = w.closed)
      (hchores : Trades w w' []
        (if (w.hub.pool.release conn).2 then [.countDown] else [])) :
      Move w w' (.release conn)
  | cleared {order : List Connection} (horder : order.Perm w.hub.pool.clear.2)
      (hpool : w'.hub.pool = w.hub.pool.clear.1) (hgauge : w'.gauge = w.gauge)
      (hclosed : w'.closed = w.closed)
      (hchores : Trades w w' [] (order.flatMap dismissal)) :
      Move w w' (.closeAll order)
  | stored {n : Nat} {client : Bytes} {conn : Connection}
      (hpool : w'.hub.pool = (w.hub.pool.insert client conn).1)
      (hgauge : w'.gauge = w.gauge) (hclosed : w'.closed = w.closed)
      (hchores : Trades w w' [.store client conn] (sequel (w.stored client))) :
      Move w w' (.turn n)
  | countedUp {n : Nat}
      (hpool : w'.hub.pool = w.hub.pool) (hgauge : w'.gauge = w.gauge + 1)
      (hclosed : w'.closed = w.closed) (hchores : Trades w w' [.countUp] []) :
      Move w w' (.turn n)
  | countedDown {n : Nat} (hpool : w'.hub.pool = w.hub.pool)
      (hgauge : w'.gauge = w.gauge - 1) (hclosed : w'.closed = w.closed)
      (hchores : Trades w w' [.countDown] []) : Move w w' (.turn n)
  | closed {n : Nat} {conn : Connection} (hpool : w'.hub.pool = w.hub.pool)
      (hgauge : w'.gauge = w.gauge) (hclosed : w'.closed = w.closed ++ [conn])
      (hchores : Trades w w' [.close conn] []) : Move w w' (.turn n)
  | outside {limiter : Limiter} {registry : Registry} {feed : Feed.Client}
      {metrics : Metrics} (hpool : w'.hub.pool = w.hub.pool)
      (hgauge : w'.gauge = w.gauge) (hclosed : w'.closed = w.closed)
      (hchores : Trades w w' [] []) :
      Move w w' (.outside limiter registry feed metrics)

theorem move_of_ask {now : Instant} {client : Bytes} {conn : Connection}
    (h : w.step (.ask now client conn) = some w') :
    Move w w' (.ask now client conn) := by
  simp only [step] at h
  split at h
  · cases h
    exact .denied rfl rfl rfl (trades_same rfl)
  · cases h
    exact .admitted rfl rfl rfl (trades_enter rfl)

theorem move_of_turn {n : Nat} (h : w.step (.turn n) = some w') :
    Move w w' (.turn n) := by
  simp only [step] at h
  split at h
  case h_1 chore rest hcall =>
    cases chore with
    | store client conn =>
        cases h
        exact .stored rfl rfl rfl (trades_turn hcall rfl)
    | countUp =>
        cases h
        exact .countedUp rfl rfl rfl (trades_turn hcall rfl)
    | countDown =>
        cases h
        exact .countedDown rfl rfl rfl (trades_turn hcall rfl)
    | close conn =>
        cases h
        exact .closed rfl rfl rfl (trades_turn hcall rfl)
  case h_2 => cases h

theorem move_of_step (h : w.step e = some w') : Move w w' e := by
  cases e with
  | ask now client conn => exact move_of_ask h
  | remove client =>
      cases h
      exact .removed rfl rfl rfl (trades_enter rfl)
  | release conn =>
      cases h
      exact .released rfl rfl rfl (trades_enter rfl)
  | closeAll order =>
      simp only [step] at h
      split at h
      case isTrue horder =>
        cases h
        exact .cleared (List.isPerm_iff.mp horder) rfl rfl rfl
          (trades_enter rfl)
      case isFalse => cases h
  | turn n => exact move_of_turn h
  | outside limiter registry feed metrics =>
      cases h
      exact .outside rfl rfl rfl (trades_same rfl)

section Settling

/-- How many steps the calls have to make: storing a connection leads to one
more. -/
def effort (w : Turnstile) : Nat := w.chores.length + w.chores.countP isStore

theorem Trades.effort {gone due : List Chore} (h : Trades w w' gone due) :
    w'.effort + (gone.length + gone.countP isStore) =
      w.effort + (due.length + due.countP isStore) := by
  have hstores := h.countP isStore
  have hall := h.countP fun _ => true
  simp only [List.countP_true] at hall
  rw [Turnstile.effort, Turnstile.effort]
  omega

theorem effort_turn {n : Nat} (h : w.step (.turn n) = some w') :
    w'.effort < w.effort := by
  cases move_of_turn h with
  | stored _ _ _ hchores =>
      have heffort := hchores.effort
      rw [length_sequel, countP_sequel] at heffort
      simp [isStore] at heffort
      omega
  | countedUp _ _ _ hchores =>
      have heffort := hchores.effort
      simp [isStore] at heffort
      omega
  | countedDown _ _ _ hchores =>
      have heffort := hchores.effort
      simp [isStore] at heffort
      omega
  | closed _ _ _ hchores =>
      have heffort := hchores.effort
      simp [isStore] at heffort
      omega

/-- A call under way can go on, whatever the others do. -/
theorem exists_turn {call : List Chore} (hcall : call ∈ w.calls)
    (hne : call ≠ []) : ∃ n w', w.step (.turn n) = some w' := by
  obtain ⟨n, hn⟩ := List.getElem?_of_mem hcall
  cases call with
  | nil => exact absurd rfl hne
  | cons chore rest =>
      exact ⟨n, { (w.perform chore).1 with
        calls := w.calls.set n ((w.perform chore).2 ++ rest) },
        by simp only [step, hn]⟩

/-- The calls under way can come to their end. -/
theorem settles (w : Turnstile) :
    ∃ (ns : List Nat) (w' : Turnstile),
    Runs.run step w (ns.map .turn) = some w' ∧ w'.Quiet := by
  -- Induction on the steps left: a call that is not done can make one, and
  -- then fewer are left.
  induction hk : w.effort using Nat.strongRecOn generalizing w with
  | ind k ih =>
      by_cases hbusy : ∃ call ∈ w.calls, call ≠ []
      · obtain ⟨call, hcall, hne⟩ := hbusy
        obtain ⟨n, u, hu⟩ := exists_turn hcall hne
        obtain ⟨ns, w', hrun, hdone⟩ := ih u.effort (hk ▸ effort_turn hu) u rfl
        exact ⟨n :: ns, w', Runs.run_cons.mpr ⟨u, hu, hrun⟩, hdone⟩
      · refine ⟨[], w, rfl, fun call hcall => ?_⟩
        by_cases hne : call = []
        · exact hne
        · exact absurd ⟨call, hcall, hne⟩ hbusy

end Settling

section Operations

variable {before : List (List Chore)}

/-- The call that came last makes its next step. -/
theorem step_turn {chore : Chore} {rest : List Chore}
    (hcalls : w.calls = before ++ [chore :: rest]) :
    w.step (.turn before.length) = some { (w.perform chore).1 with
      calls := before ++ [(w.perform chore).2 ++ rest] } := by
  have hget : w.calls[before.length]? = some (chore :: rest) := by
    rw [hcalls, List.getElem?_concat_length]
  simp only [step, hget]
  rw [hcalls, List.set_append_right _ _ (Nat.le_refl _), Nat.sub_self,
    List.set_cons_zero]

/-- Without interruption connections are counted off and closed one after the
other. -/
theorem run_dismissals {order : List Connection}
    (hcalls : w.calls = before ++ [order.flatMap dismissal]) :
    Runs.run step w (List.replicate (2 * order.length) (.turn before.length)) =
      some { w with
        hub := { w.hub with
          metrics := order.foldl (fun m _ => m.disconnected) w.hub.metrics }
        calls := before ++ [[]]
        closed := w.closed ++ order } := by
  induction order generalizing w with
  | nil =>
      rw [List.append_nil]
      have hsame : w.calls = before ++ [[]] := hcalls
      rw [← hsame]
      rfl
  | cons conn order ih =>
      have hlength :
          2 * (conn :: order).length = 2 * order.length + 1 + 1 := by
        rw [List.length_cons]
        omega
      rw [hlength, List.replicate_succ, List.replicate_succ]
      refine Runs.run_cons.mpr
        ⟨_, step_turn hcalls, Runs.run_cons.mpr ⟨_, step_turn rfl, ?_⟩⟩
      rw [ih rfl]
      simp [perform]

/-- A connection that is not admitted leaves the limiter's record and nothing
else. -/
theorem step_ask_denied {now : Instant} {client : Bytes} {conn : Connection}
    {fault : Fault}
    (hdenied : (w.hub.connect now client conn).2 = .error fault) :
    w.step (.ask now client conn) = some { w with
      hub := (w.hub.connect now client conn).1 } ∧
      ∃ limiter, (w.hub.connect now client conn).1 =
        { w.hub with limiter } := by
  rw [Hub.connect] at hdenied ⊢
  rw [step]
  cases hask : w.hub.limiter.ask now client with
  | mk limiter granted =>
      rw [hask] at hdenied
      cases granted with
      | false => exact ⟨rfl, limiter, rfl⟩
      | true => cases hdenied

theorem run_connect {now : Instant} {client : Bytes} {conn : Connection}
    {displaced : Option Connection}
    (hgranted : (w.hub.connect now client conn).2 = .ok displaced) :
    Runs.run step w [.ask now client conn, .turn w.calls.length,
        .turn w.calls.length] =
      some { hub := (w.hub.connect now client conn).1
             calls := w.calls ++ [[]]
             closed := w.closed ++ displaced.toList } := by
  rw [Hub.connect] at hgranted ⊢
  cases hask : w.hub.limiter.ask now client with
  | mk limiter granted =>
      rw [hask] at hgranted
      cases granted with
      | false => cases hgranted
      | true =>
          have hstored : w.hub.pool.get? client = displaced :=
            Except.ok.inj hgranted
          have hstep : w.step (.ask now client conn) = some { w with
              hub := { w.hub with limiter },
              calls := w.calls ++ [[.store client conn]] } := by
            rw [step, hask]
          refine Runs.run_cons.mpr
            ⟨_, hstep, Runs.run_cons.mpr ⟨_, step_turn rfl, ?_⟩⟩
          simp only [perform, Pool.insert, hstored, List.append_nil]
          refine Runs.run_cons.mpr ?_
          cases displaced with
          | none =>
              rw [Option.toList_none, List.append_nil]
              exact ⟨_, step_turn rfl, rfl⟩
          | some old => exact ⟨_, step_turn rfl, rfl⟩

theorem run_remove (w : Turnstile) (client : Bytes) :
    Runs.run step w (.remove client ::
        List.replicate (2 * (w.stored client).toList.length)
            (.turn w.calls.length)) =
      some { hub := (w.hub.remove client).1
             calls := w.calls ++ [[]]
             closed := w.closed ++ (w.hub.remove client).2.toList } := by
  have hcalls :
      (w.enter (w.hub.pool.remove client).1
        ((w.stored client).toList.flatMap dismissal)).calls =
      w.calls ++ [(w.stored client).toList.flatMap dismissal] := rfl
  refine Runs.run_cons.mpr ⟨_, rfl, (run_dismissals hcalls).trans ?_⟩
  rw [Hub.remove, Pool.remove]
  unfold stored
  cases w.hub.pool.get? client with
  | none => rfl
  | some conn => rfl

theorem run_release (w : Turnstile) (conn : Connection) :
    Runs.run step w (.release conn ::
        List.replicate (w.hub.release conn).2.toNat (.turn w.calls.length)) =
      some { hub := (w.hub.release conn).1
             calls := w.calls ++ [[]]
             closed := w.closed } := by
  rw [Hub.release]
  cases hpool : w.hub.pool.release conn with
  | mk pool owner =>
      have hstep : w.step (.release conn) =
          some (w.enter pool (if owner then [.countDown] else [])) := by
        rw [step, hpool]
      refine Runs.run_cons.mpr ⟨_, hstep, ?_⟩
      cases owner with
      | false => rfl
      | true => exact Runs.run_cons.mpr ⟨_, step_turn rfl, rfl⟩

theorem run_closeAll (w : Turnstile) :
    Runs.run step w (.closeAll w.hub.closeAll.2 ::
        List.replicate (2 * w.hub.closeAll.2.length) (.turn w.calls.length)) =
      some { hub := w.hub.closeAll.1
             calls := w.calls ++ [[]]
             closed := w.closed ++ w.hub.closeAll.2 } := by
  have hcalls :
      (w.enter w.hub.pool.clear.1 (w.hub.closeAll.2.flatMap dismissal)).calls =
        w.calls ++ [w.hub.closeAll.2.flatMap dismissal] := rfl
  refine Runs.run_cons.mpr ⟨_, ?_, run_dismissals hcalls⟩
  exact if_pos (List.isPerm_iff.mpr (List.Perm.refl _))

end Operations

end Turnstile
end TickRelay
