import TickRelay.Proofs.DeliveryRounds

/-!
# Every tick in order, up to the first one refused

A connection is due the ticks for which it was found in the pool and open, in
the order in which they came. It takes them one after the other until there is
no room for one of them, and after that takes none.

**Algorithm.** `Line.Kept` says what holds of one connection, given how far the
offer of the current tick to it has come; each step of the dispatcher has its
own lemma there. `Staffed` says that the dispatcher finds every connection at
most once in a round. `Counted` ties the counters to what happened to the
connections.

**Results.** `delivers_in_order` is what holds after any events: the client
reads what the session took, the session took the ticks that were due, and a
refusal is the last thing that happens.
-/

namespace TickRelay
namespace Server

namespace Line

variable {queueSize : Int64} {phase? : Option Phase} {frame : Bytes}
  {due : List Bytes} {l l' : Line}

/-- What holds of a connection that was due some ticks. The offer of the
current one has come to some phase, if it is offered at all. -/
structure Kept (queueSize : Int64) (phase? : Option Phase) (frame : Bytes)
    (due : List Bytes) (l : Line) : Prop where
  ordered : l.Ordered
  capacity : (l.session.capacity : Int) = queueSize.toInt
  due : due = l.ticks ++ (if phase? = some .asked then [frame] else []) ++
    l.refused
  clear : phase? = some .asked ∨ phase? = some .accepted → l.refused = []
  shut : l.refused ≠ [] →
    l.session.isOpen = false ∨ phase? = some .refused ∨ phase? = some .closing
  sent : l.sent + (if phase? = some .accepted then 1 else 0) = l.ticks.length
  faults :
    l.faults + (if phase? = some .refused then 1 else 0) = l.refused.length
  once : l.refused.length ≤ 1

namespace Kept

theorem quiet (h : l.Kept queueSize phase? frame due) (hquiet : l.Quiet l') :
    l'.Kept queueSize phase? frame due where
  ordered := hquiet.ordered h.ordered
  capacity := by rw [hquiet.capacity, h.capacity]
  due := by rw [hquiet.ticks, hquiet.refused, h.due]
  clear := by rw [hquiet.refused]; exact h.clear
  shut := by
    rw [hquiet.refused]
    intro hrefused
    rcases h.shut hrefused with hclosed | hphase
    · refine Or.inl (Bool.eq_false_iff.mpr fun hopen => ?_)
      rw [hquiet.isOpen hopen] at hclosed
      cases hclosed
    · exact Or.inr hphase
  sent := by rw [hquiet.sent, hquiet.ticks, h.sent]
  faults := by rw [hquiet.faults, hquiet.refused, h.faults]
  once := by rw [hquiet.refused]; exact h.once

/-- The tick of the round does not matter where it is not offered. -/
theorem idle (h : l.Kept queueSize none frame due) (frame' : Bytes) :
    l.Kept queueSize none frame' due where
  ordered := h.ordered
  capacity := h.capacity
  due := h.due
  clear := h.clear
  shut := h.shut
  sent := h.sent
  faults := h.faults
  once := h.once

theorem found (h : l.Kept queueSize none frame due) :
    l.Kept queueSize (some .found) frame due where
  ordered := h.ordered
  capacity := h.capacity
  due := h.due
  clear := by simp
  shut hrefused := by simpa using h.shut hrefused
  sent := h.sent
  faults := h.faults
  once := h.once

theorem passed (h : l.Kept queueSize (some .found) frame due) :
    l.Kept queueSize none frame due where
  ordered := h.ordered
  capacity := h.capacity
  due := h.due
  clear := by simp
  shut hrefused := by simpa using h.shut hrefused
  sent := h.sent
  faults := h.faults
  once := h.once

/-- An open connection is due the tick. -/
theorem asked (h : l.Kept queueSize (some .found) frame due)
    (hopen : l.session.isOpen = true) :
    l.Kept queueSize (some .asked) frame (due ++ [frame]) := by
  -- a session that is open has refused nothing, so the tick comes last
  have hnone : l.refused = [] := by
    by_contra hrefused
    simpa [hopen] using h.shut hrefused
  have hdue : due = l.ticks := by simpa [hnone] using h.due
  constructor
  case ordered => exact h.ordered
  case capacity => exact h.capacity
  case due => simp [hdue, hnone]
  case clear => exact fun _ => hnone
  case shut => exact fun hrefused => absurd hnone hrefused
  case sent => exact h.sent
  case faults => exact h.faults
  case once => exact h.once

theorem accepted (h : l.Kept queueSize (some .asked) frame due)
    (hroom : l.session.queue.length < l.session.capacity) :
    Kept queueSize (some .accepted) frame due { l.withSession { l.session with
      queue := l.session.queue ++ [frame] } with accepted :=
        l.accepted ++ [.tick frame] } := by
  have hnone : l.refused = [] := h.clear (Or.inl rfl)
  have hdue : due = l.ticks ++ [frame] := by simpa [hnone] using h.due
  have hsent : l.sent = l.ticks.length := by simpa using h.sent
  have hfaults : l.faults = 0 := by simpa [hnone] using h.faults
  constructor
  case ordered => exact h.ordered.enqueue (q := .tick frame) hroom
  case capacity => exact h.capacity
  case due => simp [hdue, hnone, ticks, withSession, Queued.tick?]
  case clear => exact fun _ => hnone
  case shut => exact fun hrefused => absurd hnone hrefused
  case sent => simp [hsent, ticks, withSession, Queued.tick?]
  case faults => simp [hfaults, hnone, withSession]
  case once => exact h.once

theorem refused (h : l.Kept queueSize (some .asked) frame due) :
    Kept queueSize (some .refused) frame due { l with
      refused := l.refused ++ [frame] } := by
  have hnone : l.refused = [] := h.clear (Or.inl rfl)
  have hdue : due = l.ticks ++ [frame] := by simpa [hnone] using h.due
  have hsent : l.sent = l.ticks.length := by simpa using h.sent
  have hfaults : l.faults = 0 := by simpa [hnone] using h.faults
  constructor
  case ordered => exact ⟨h.ordered.frames, h.ordered.room⟩
  case capacity => exact h.capacity
  case due => simp [hdue, hnone, ticks]
  case clear => simp
  case shut => exact fun _ => Or.inr (Or.inl rfl)
  case sent => simp [hsent, ticks]
  case faults => simp [hfaults, hnone]
  case once => simp [hnone]

theorem counted (h : l.Kept queueSize (some .accepted) frame due) :
    Kept queueSize none frame due { l with sent := l.sent + 1 } := by
  have hnone : l.refused = [] := h.clear (Or.inr rfl)
  constructor
  case ordered => exact ⟨h.ordered.frames, h.ordered.room⟩
  case capacity => exact h.capacity
  case due => exact h.due
  case clear => simp
  case shut => exact fun hrefused => absurd hnone hrefused
  case sent => exact h.sent
  case faults => exact h.faults
  case once => exact h.once

theorem blamed (h : l.Kept queueSize (some .refused) frame due) :
    Kept queueSize (some .closing) frame due { l with
      faults := l.faults + 1 } := by
  constructor
  case ordered => exact ⟨h.ordered.frames, h.ordered.room⟩
  case capacity => exact h.capacity
  case due => exact h.due
  case clear => simp
  case shut => exact fun _ => Or.inr (Or.inr rfl)
  case sent => exact h.sent
  case faults => exact h.faults
  case once => exact h.once

/-- A connection that refused a tick is closed. -/
theorem closed (h : l.Kept queueSize (some .closing) frame due) :
    l.close.Kept queueSize none frame due := by
  have hkept := h.quiet l.quiet_close
  have hclosed : l.close.session.isOpen = false := by
    unfold close withSession session Session.close
    split
    · rfl
    · rename_i hopen
      simpa using hopen
  constructor
  case ordered => exact hkept.ordered
  case capacity => exact hkept.capacity
  case due => exact hkept.due
  case clear => simp
  case shut => exact fun _ => Or.inl hclosed
  case sent => exact hkept.sent
  case faults => exact hkept.faults
  case once => exact hkept.once

end Kept

/-- A new connection is due nothing. -/
theorem kept_new {client : Bytes} {key : Nat} {session : Session}
    (h : Session.create? client queueSize = some session) :
    Kept queueSize none frame []
        { visit := { conn := ⟨key, client⟩, session } } := by
  unfold Session.create? at h
  split at h
  · rename_i hsize
    simp only [Bool.and_eq_true, decide_eq_true_eq] at hsize
    have hnonneg : 0 ≤ queueSize.toInt := Int64.le_iff_toInt_le.mp hsize.1
    cases h
    refine ⟨⟨rfl, Nat.zero_le _⟩, Int.toNat_of_nonneg hnonneg, rfl,
      fun _ => rfl, ?_, rfl, rfl, Nat.zero_le 1⟩
    exact fun hrefused => absurd rfl hrefused
  · cases h

end Line

namespace Round

/-- How far the offer to a connection has come. -/
def phaseOf (r : Round) (n : Nat) : Option Phase :=
  r.hand.bind fun h => if h.1 = n then some h.2 else none

/-- A round finds no connection twice: who was found waits no more, where
`clients` are the clients of all connections. -/
structure Sound (clients : List Bytes) (r : Round) : Prop where
  nodup : r.waiting.Nodup
  waiting : ∀ c ∈ r.waiting, c ∈ r.current.subscribers
  served : ∀ n ∈ r.current.found, ∃ c ∈ r.current.subscribers,
    clients[n]? = some c ∧ c ∉ r.waiting
  hand : ∀ n phase, r.hand = some (n, phase) →
    ∃ c ∈ r.current.subscribers, clients[n]? = some c ∧ c ∉ r.waiting
  fresh : ∀ n, r.hand = some (n, .found) → n ∉ r.current.found

namespace Sound

variable {clients : List Bytes} {r : Round} {n : Nat} {phase : Phase}

theorem append (h : r.Sound clients) (more : List Bytes) :
    r.Sound (clients ++ more) := by
  have hold : ∀ {n : Nat} {c : Bytes}, clients[n]? = some c →
      (clients ++ more)[n]? = some c := by
    intro n c hc
    rw [List.getElem?_append_left (List.getElem?_eq_some_iff.mp hc).1, hc]
  refine ⟨h.nodup, h.waiting, fun n hn => ?_, fun n phase hhand => ?_, h.fresh⟩
  · obtain ⟨c, hsub, hc, hserved⟩ := h.served n hn
    exact ⟨c, hsub, hold hc, hserved⟩
  · obtain ⟨c, hsub, hc, hserved⟩ := h.hand n phase hhand
    exact ⟨c, hsub, hold hc, hserved⟩

theorem drop (h : r.Sound clients) :
    Sound clients { r with hand := none } where
  nodup := h.nodup
  waiting := h.waiting
  served := h.served
  hand n phase hhand := by cases hhand
  fresh n hhand := by cases hhand

/-- The offer to the connection in hand goes on. -/
theorem onward (h : r.Sound clients) (hhand : r.hand = some (n, phase))
    {next : Phase} (hnext : next ≠ .found) :
    Sound clients { r with hand := some (n, next) } where
  nodup := h.nodup
  waiting := h.waiting
  served := h.served
  hand m later hm := by
    cases hm
    exact h.hand n phase hhand
  fresh m hm := by
    cases hm
    exact absurd rfl hnext

/-- The connection in hand is found. -/
theorem sight (h : r.Sound clients) (hhand : r.hand = some (n, phase)) :
    Sound clients { r with current := { r.current with
      found := r.current.found ++ [n] }, hand := some (n, .asked) } where
  nodup := h.nodup
  waiting := h.waiting
  served m hm := by
    rcases List.mem_append.mp hm with hold | hnew
    · exact h.served m hold
    · rw [List.mem_singleton.mp hnew]
      exact h.hand n phase hhand
  hand m later hm := by
    cases hm
    exact h.hand n phase hhand
  fresh m hm := by cases hm

theorem look (h : r.Sound clients) {client : Bytes}
    (hclient : client ∈ r.waiting) {conn? : Option Connection}
    (hconn : ∀ conn, conn? = some conn → clients[conn.key]? = some client) :
    Sound clients { r with
      waiting := r.waiting.erase client,
      hand := conn?.map fun c => (c.key, .found) } := by
  have hgone : client ∉ r.waiting.erase client := h.nodup.not_mem_erase
  have hless : ∀ {c : Bytes}, c ∉ r.waiting → c ∉ r.waiting.erase client :=
    fun hc hm => hc (List.mem_of_mem_erase hm)
  have hkey : ∀ n phase, (conn?.map fun c => (c.key, Phase.found)) =
      some (n, phase) → clients[n]? = some client := by
    intro n phase hmap
    obtain ⟨conn, hsome, heq⟩ := Option.map_eq_some_iff.mp hmap
    cases heq
    exact hconn conn hsome
  refine ⟨h.nodup.erase client,
    fun c hc => h.waiting c (List.mem_of_mem_erase hc), fun n hn =>
    ?_, fun n phase hhand => ?_, fun n hhand hn => ?_⟩
  · obtain ⟨c, hsub, hc, hserved⟩ := h.served n hn
    exact ⟨c, hsub, hc, hless hserved⟩
  · exact ⟨client, h.waiting client hclient, hkey n phase hhand, hgone⟩
  · obtain ⟨c, -, hc, hserved⟩ := h.served n hn
    rw [hkey n .found hhand] at hc
    cases hc
    exact hserved hclient

end Sound
end Round

namespace Broadcast

variable {queueSize : Int64} {w w' : Broadcast}

def clients (w : Broadcast) : List Bytes := w.lines.map Line.client

/-- The ticks that were delivered, and the one that is. -/
def dispatches (w : Broadcast) : List Dispatched :=
  w.past ++ w.round.toList.map Round.current

/-- The ticks for which a connection was found in the pool and open, oldest
first. -/
def due (w : Broadcast) (n : Nat) : List Bytes :=
  (w.dispatches.filter fun d => d.found.contains n).map Dispatched.frame

/-- How far the offer of the current tick to a connection has come. -/
def phaseOf (w : Broadcast) (n : Nat) : Option Phase :=
  w.round.bind fun r => r.phaseOf n

def frame (w : Broadcast) : Bytes :=
  (w.round.map fun r => r.current.frame).getD []

/-- The dispatcher works on connections that exist, each found once in a round
at most. -/
structure Staffed (w : Broadcast) : Prop where
  owner : ∀ c conn, w.hub.pool.get? c = some conn →
    w.clients[conn.key]? = some c
  distinct : w.hub.registry.Distinct
  past : ∀ d ∈ w.past, ∀ n ∈ d.found, ∃ c ∈ d.subscribers,
    w.clients[n]? = some c
  round : ∀ r, w.round = some r → r.Sound w.clients

theorem lines_set {n : Nat} {l : Line} (hl : w.lines[n]? = some l) (l' : Line)
    (m : Nat) :
    (w.lines.set n l')[m]? = if n = m then some l' else w.lines[m]? := by
  rw [List.getElem?_set, if_pos (List.getElem?_eq_some_iff.mp hl).1]

/-- A connection that is put in its own place changes nothing. -/
theorem lines_self {n : Nat} {l : Line} (hl : w.lines[n]? = some l) (m : Nat) :
    w.lines[m]? = if n = m then some l else w.lines[m]? := by
  split
  · rename_i hm
    rw [← hm, hl]
  · rfl

theorem clients_set {n : Nat} {l l' : Line} (hl : w.lines[n]? = some l)
    (hclient : l'.client = l.client) :
    (w.lines.set n l').map Line.client = w.clients := by
  apply List.ext_getElem?
  intro m
  rw [clients, List.getElem?_map, List.getElem?_map, lines_set hl,
    lines_self hl m]
  split
  · exact congrArg some hclient
  · rfl

namespace Staffed

theorem calm (h : w.Staffed) {k : Nat} (hcalm : Calm k w.hub w'.hub)
    (hclients : w'.clients = w.clients) (hpast : w'.past = w.past)
    (hround : w'.round = w.round) : w'.Staffed where
  owner c conn hstored := by
    rw [hclients]; exact h.owner c conn (hcalm.pool c conn hstored)
  distinct := hcalm.registry h.distinct
  past := by rw [hpast, hclients]; exact h.past
  round := by rw [hround, hclients]; exact h.round

/-- The dispatcher goes on with its round. -/
theorem onward (h : w.Staffed) {r : Round} (hpool : w'.hub.pool = w.hub.pool)
    (hregistry : w'.hub.registry = w.hub.registry)
    (hclients : w'.clients = w.clients) (hpast : w'.past = w.past)
    (hround : w'.round = some r) (hr : r.Sound w.clients) : w'.Staffed where
  owner := by rw [hpool, hclients]; exact h.owner
  distinct := by rw [hregistry]; exact h.distinct
  past := by rw [hpast, hclients]; exact h.past
  round r' hr' := by
    rw [hround] at hr'
    cases hr'
    rw [hclients]
    exact hr

theorem advance (h : w.Staffed) {r : Round} {n : Nat} {phase : Phase}
    {l : Line} (hround : w.round = some r) (hhand : r.hand = some (n, phase))
    (hl : w.lines[n]? = some l) : (w.advance r n l phase).Staffed := by
  have hr := h.round r hround
  unfold Broadcast.advance
  cases phase with
  | found =>
      dsimp only
      split
      · exact h.onward rfl rfl rfl rfl rfl (hr.sight hhand)
      · exact h.onward rfl rfl rfl rfl rfl hr.drop
  | asked =>
      dsimp only
      unfold Session.enqueue
      split
      · rename_i session hroom
        exact h.onward rfl rfl (clients_set hl rfl) rfl rfl
          (hr.onward hhand (by decide))
      · exact h.onward rfl rfl (clients_set hl rfl) rfl rfl
          (hr.onward hhand (by decide))
  | accepted => exact h.onward rfl rfl (clients_set hl rfl) rfl rfl hr.drop
  | refused =>
      exact h.onward rfl rfl (clients_set hl rfl) rfl rfl
        (hr.onward hhand (by decide))
  | closing =>
      exact h.onward rfl rfl
        (clients_set hl (congrArg Connection.id l.quiet_close.conn))
        rfl rfl hr.drop

theorem arrive (h : w.Staffed) {limiter : Limiter} {metrics : Metrics}
    {client : Bytes} {session : Session} :
    Staffed { w with
      hub := { w.hub with
        limiter, metrics,
        pool := (w.hub.pool.insert client ⟨w.lines.length, client⟩).1 }
      lines := w.lines ++
        [{ visit := { conn := ⟨w.lines.length, client⟩, session } }] } := by
  have hclients : ∀ {n : Nat} {c : Bytes}, w.clients[n]? = some c →
      (w.clients ++ [client])[n]? = some c := by
    intro n c hc
    rw [List.getElem?_append_left (List.getElem?_eq_some_iff.mp hc).1, hc]
  have hlength : w.clients.length = w.lines.length := List.length_map _
  constructor
  case owner =>
    intro c conn hstored
    show ((w.lines ++ _).map Line.client)[conn.key]? = some c
    rw [List.map_append]
    rw [Pool.get?_insert] at hstored
    split at hstored
    · rename_i hc
      cases hstored
      rw [hc, ← hlength]
      exact List.getElem?_concat_length
    · exact hclients (h.owner c conn hstored)
  case distinct => exact h.distinct
  case past =>
    intro d hd n hn
    obtain ⟨c, hsub, hc⟩ := h.past d hd n hn
    refine ⟨c, hsub, ?_⟩
    show ((w.lines ++ _).map Line.client)[n]? = some c
    rw [List.map_append]
    exact hclients hc
  case round =>
    intro r hr
    show r.Sound ((w.lines ++ _).map Line.client)
    rw [List.map_append]
    exact (h.round r hr).append [client]

theorem step (h : w.Staffed) (hmove : Move queueSize w w') : w'.Staffed := by
  cases hmove with
  | hub hcalm => exact h.calm hcalm rfl rfl rfl
  | quiet hl hquiet hcalm =>
      exact h.calm hcalm
        (clients_set hl (congrArg Connection.id hquiet.conn)) rfl rfl
  | admitted hsession hsent herrors => exact h.arrive
  | started hround =>
      refine h.onward rfl rfl rfl rfl rfl
        ⟨h.distinct _, fun c hc => hc, ?_, ?_, ?_⟩
      · intro n hn
        cases hn
      · intro n phase hhand
        cases hhand
      · intro n hhand
        cases hhand
  | looked hround hhand hclient =>
      exact h.onward rfl rfl rfl rfl rfl
        ((h.round _ hround).look hclient fun conn => h.owner _ conn)
  | advanced hround hhand hl => exact h.advance hround hhand hl
  | @finished r latency hround hhand hwaiting =>
      refine ⟨h.owner, h.distinct, fun d hd n hn => ?_,
        fun r' hr' => by cases hr'⟩
      rcases List.mem_append.mp hd with hold | hnew
      · exact h.past d hold n hn
      · rw [List.mem_singleton.mp hnew] at hn ⊢
        obtain ⟨c, hsub, hc, -⟩ := (h.round r hround).served n hn
        exact ⟨c, hsub, hc⟩

end Staffed

/-- Every connection took what it was due, as far as the dispatcher has
come. -/
def Served (queueSize : Int64) (w : Broadcast) : Prop :=
  ∀ (n : Nat) (l : Line), w.lines[n]? = some l →
    l.Kept queueSize (w.phaseOf n) w.frame (w.due n)

section Due

variable {r : Round} {n : Nat}

theorem due_of_idle (hround : w.round = none) :
    w.due n =
      (w.past.filter fun d => d.found.contains n).map Dispatched.frame := by
  simp [due, dispatches, hround]

theorem due_of_round (hround : w.round = some r) :
    w.due n =
      (w.past.filter fun d => d.found.contains n).map Dispatched.frame ++
      if r.current.found.contains n then [r.current.frame] else [] := by
  simp only [due, dispatches, hround, Option.toList_some, List.map_cons,
    List.map_nil, List.filter_append, List.map_append, List.filter_cons,
    List.filter_nil]
  split <;> rfl

theorem phaseOf_of_round (hround : w.round = some r) :
    w.phaseOf n = r.phaseOf n := by
  simp [phaseOf, hround]

theorem phaseOf_of_idle (hround : w.round = none) : w.phaseOf n = none := by
  simp [phaseOf, hround]

theorem phaseOf_of_hand {phase : Phase} (hround : w.round = some r)
    (hhand : r.hand = some (n, phase)) : w.phaseOf n = some phase := by
  simp [phaseOf, hround, Round.phaseOf, hhand]

theorem frame_of_round (hround : w.round = some r) :
    w.frame = r.current.frame := by
  simp [frame, hround]

/-- The dispatcher offers the tick to one connection at a time. -/
theorem phaseOf_elsewhere {m : Nat} (hround : w.round = some r)
    (hhand : ∀ k phase, r.hand = some (k, phase) → k = n) (hm : m ≠ n) :
    w.phaseOf m = none := by
  rw [phaseOf_of_round hround]
  unfold Round.phaseOf
  cases h : r.hand with
  | none => rfl
  | some hand =>
      obtain ⟨k, phase⟩ := hand
      have hk := hhand k phase h
      simp [hk, hm.symm]

end Due

namespace Served

/-- Only one connection changes, whose offer goes on. -/
theorem onward (h : w.Served queueSize) {r r' : Round} {n : Nat} {l' : Line}
    (hround : w.round = some r)
    (hhand : ∀ m phase, r.hand = some (m, phase) → m = n)
    (hround' : w'.round = some r')
    (hhand' : ∀ m phase, r'.hand = some (m, phase) → m = n)
    (hframe : r'.current.frame = r.current.frame)
    (hlines : ∀ m, w'.lines[m]? = if n = m then some l' else w.lines[m]?)
    (hdue : ∀ m, m ≠ n → w'.due m = w.due m)
    (hkept : l'.Kept queueSize (r'.phaseOf n) r.current.frame (w'.due n)) :
    w'.Served queueSize := by
  intro m k hk
  rw [frame_of_round hround', hframe]
  rw [hlines m] at hk
  split at hk
  · rename_i hm
    subst hm
    cases hk
    rw [phaseOf_of_round hround']
    exact hkept
  · rename_i hm
    have hold := h m k hk
    rw [phaseOf_elsewhere hround' hhand' (Ne.symm hm), hdue m (Ne.symm hm)]
    rw [phaseOf_elsewhere hround hhand (Ne.symm hm), frame_of_round hround]
      at hold
    exact hold

/-- The same, when no connection is found anew. -/
theorem handOver (h : w.Served queueSize) {r r' : Round} {n : Nat}
    {p : Option Phase} {l' : Line} (hround : w.round = some r)
    (hhand : ∀ m phase, r.hand = some (m, phase) → m = n)
    (hround' : w'.round = some r') (hcurrent : r'.current = r.current)
    (hhand' : r'.hand = p.map fun phase => (n, phase))
    (hpast : w'.past = w.past)
    (hlines : ∀ m, w'.lines[m]? = if n = m then some l' else w.lines[m]?)
    (hkept : l'.Kept queueSize p r.current.frame (w.due n)) :
    w'.Served queueSize := by
  have hdue : ∀ m, w'.due m = w.due m := by
    intro m
    rw [due_of_round hround, due_of_round hround', hpast, hcurrent]
  have hphase : r'.phaseOf n = p := by
    unfold Round.phaseOf
    rw [hhand']
    cases p <;> simp
  refine h.onward hround hhand hround' (fun m phase hm => ?_)
    (by rw [hcurrent]) hlines (fun m _ => hdue m) ?_
  · rw [hhand'] at hm
    obtain ⟨phase', -, heq⟩ := Option.map_eq_some_iff.mp hm
    cases heq
    rfl
  · rw [hphase, hdue n]
    exact hkept

/-- The connection in hand is found: it is due the tick, and the others are due
what they were. -/
theorem sight (h : w.Served queueSize) {r : Round} {n : Nat} {l : Line}
    (hround : w.round = some r)
    (hhand : ∀ m phase, r.hand = some (m, phase) → m = n)
    (hround' : w'.round = some { r with current := { r.current with
      found := r.current.found ++ [n] }, hand := some (n, .asked) })
    (hpast : w'.past = w.past)
    (hlines : ∀ m, w'.lines[m]? = if n = m then some l else w.lines[m]?)
    (hfresh : n ∉ r.current.found)
    (hkept : l.Kept queueSize (some .asked) r.current.frame
      (w.due n ++ [r.current.frame])) : w'.Served queueSize := by
  refine h.onward hround hhand hround' (fun m phase hm => ?_) rfl hlines
    (fun m hm => ?_) ?_
  · cases hm
    rfl
  · rw [due_of_round hround, due_of_round hround', hpast]
    simp [hm]
  · have hphase : Round.phaseOf { r with
        current := { r.current with found := r.current.found ++ [n] },
        hand := some (n, .asked) } n =
          some .asked := by
      simp [Round.phaseOf]
    have hdue : w'.due n = w.due n ++ [r.current.frame] := by
      rw [due_of_round hround, due_of_round hround', hpast]
      simp [hfresh]
    rw [hphase, hdue]
    exact hkept

theorem advance (h : w.Served queueSize) (hstaffed : w.Staffed) {r : Round}
    {n : Nat} {phase : Phase} {l : Line} (hround : w.round = some r)
    (hhand : r.hand = some (n, phase)) (hl : w.lines[n]? = some l) :
    (w.advance r n l phase).Served queueSize := by
  have hkept := h n l hl
  rw [phaseOf_of_hand hround hhand, frame_of_round hround] at hkept
  have hmine : ∀ m p, r.hand = some (m, p) → m = n := by
    intro m p hm
    rw [hhand] at hm
    cases hm
    rfl
  cases phase with
  | found =>
      unfold Broadcast.advance
      dsimp only
      split
      · rename_i hopen
        have hfresh := (hstaffed.round r hround).fresh n hhand
        exact h.sight hround hmine rfl rfl (lines_self hl) hfresh
          (hkept.asked hopen)
      · exact h.handOver (p := none) hround hmine rfl rfl rfl rfl
          (lines_self hl) hkept.passed
  | asked =>
      unfold Broadcast.advance Session.enqueue
      dsimp only
      by_cases hroom : l.session.queue.length < l.session.capacity
      · rw [if_pos hroom]
        exact h.handOver (p := some .accepted) hround hmine rfl rfl rfl rfl
          (lines_set hl _) (hkept.accepted hroom)
      · rw [if_neg hroom]
        exact h.handOver (p := some .refused) hround hmine rfl rfl rfl rfl
          (lines_set hl _) hkept.refused
  | accepted =>
      exact h.handOver (p := none) hround hmine rfl rfl rfl rfl
        (lines_set hl _) hkept.counted
  | refused =>
      exact h.handOver (p := some .closing) hround hmine rfl rfl rfl rfl
        (lines_set hl _) hkept.blamed
  | closing =>
      exact h.handOver (p := none) hround hmine rfl rfl rfl rfl
        (lines_set hl _) hkept.closed

/-- Nothing is offered before or after. -/
theorem idle (h : w.Served queueSize) (hphase : ∀ n, w.phaseOf n = none)
    (hphase' : ∀ n, w'.phaseOf n = none) (hlines : w'.lines = w.lines)
    (hdue : ∀ n, w'.due n = w.due n) : w'.Served queueSize := by
  intro n l hl
  rw [hlines] at hl
  have hold := h n l hl
  rw [hphase n] at hold
  rw [hphase' n, hdue n]
  exact hold.idle w'.frame

theorem look (h : w.Served queueSize) (hstaffed : w.Staffed) {r : Round}
    {client : Bytes} (hround : w.round = some r) (hhand : r.hand = none) :
    Served queueSize { w with round := some { r with
      waiting := r.waiting.erase client
      hand := (w.hub.pool.get? client).map fun c => (c.key, .found) } } := by
  have hbefore : ∀ n, w.phaseOf n = none := by
    intro n
    rw [phaseOf_of_round hround, Round.phaseOf, hhand]
    rfl
  cases hconn : w.hub.pool.get? client with
  | none =>
      refine h.idle hbefore (fun n => rfl) rfl fun n => ?_
      rw [due_of_round hround, due_of_round rfl]
  | some conn =>
      have hclient := hstaffed.owner client conn hconn
      rw [clients, List.getElem?_map] at hclient
      obtain ⟨l, hl, -⟩ := Option.map_eq_some_iff.mp hclient
      have hkept := h conn.key l hl
      rw [hbefore, frame_of_round hround] at hkept
      refine h.handOver (p := some .found) hround (fun m phase hm => ?_) rfl
        rfl rfl rfl (lines_self hl) hkept.found
      rw [hhand] at hm
      cases hm

theorem arrive (h : w.Served queueSize) (hstaffed : w.Staffed) {hub : Hub}
    {client : Bytes} {session : Session}
    (hsession : Session.create? client queueSize = some session) :
    Served queueSize { w with
      hub,
      lines := w.lines ++
        [{ visit := { conn := ⟨w.lines.length, client⟩, session } }] } := by
  -- the new connection has the next key, which nobody has found yet
  have hnew : ∀ c, w.clients[w.lines.length]? ≠ some c := by
    intro c hc
    have hlt := (List.getElem?_eq_some_iff.mp hc).1
    simp [clients] at hlt
  have hphase : w.phaseOf w.lines.length = none := by
    cases hround : w.round with
    | none => exact phaseOf_of_idle hround
    | some r =>
        rw [phaseOf_of_round hround, Round.phaseOf]
        cases hhand : r.hand with
        | none => rfl
        | some hand =>
            obtain ⟨c, -, hc, -⟩ :=
              (hstaffed.round r hround).hand hand.1 hand.2 hhand
            have hne : hand.1 ≠ w.lines.length := by
              intro heq
              rw [heq] at hc
              exact hnew c hc
            simp [hne]
  have hdue : w.due w.lines.length = [] := by
    simp only [due, List.map_eq_nil_iff, List.filter_eq_nil_iff,
      List.contains_iff_mem]
    intro d hd hfound
    rcases List.mem_append.mp hd with hpast | hcurrent
    · obtain ⟨c, -, hc⟩ := hstaffed.past d hpast _ hfound
      exact hnew c hc
    · obtain ⟨r, hr, rfl⟩ := List.mem_map.mp hcurrent
      obtain ⟨c, -, hc, -⟩ :=
        (hstaffed.round r (Option.mem_toList.mp hr)).served _ hfound
      exact hnew c hc
  intro n l hl
  rw [List.getElem?_append] at hl
  split at hl
  · exact h n l hl
  · rename_i hlt
    obtain ⟨hzero, rfl⟩ : n - w.lines.length = 0 ∧ _ = l := by
      rw [List.getElem?_singleton] at hl
      split at hl
      · rename_i hzero
        exact ⟨hzero, Option.some.inj hl⟩
      · cases hl
    have hn : n = w.lines.length := by omega
    subst hn
    show Line.Kept queueSize (w.phaseOf w.lines.length) w.frame
      (w.due w.lines.length) _
    rw [hphase, hdue]
    exact Line.kept_new hsession

theorem step (h : w.Served queueSize) (hstaffed : w.Staffed)
    (hmove : Move queueSize w w') : w'.Served queueSize := by
  cases hmove with
  | hub hcalm => exact fun n l hl => h n l hl
  | @quiet hub k n l l' hl hquiet hcalm =>
      intro m u hu
      rw [lines_set hl] at hu
      split at hu
      · rename_i hm
        cases hu
        exact hm ▸ (h n l hl).quiet hquiet
      · exact h m u hu
  | admitted hsession hsent herrors => exact h.arrive hstaffed hsession
  | started hround =>
      refine h.idle (fun n => phaseOf_of_idle hround)
        (fun n => rfl) rfl fun n => ?_
      rw [due_of_idle hround, due_of_round rfl]
      simp
  | looked hround hhand hclient => exact h.look hstaffed hround hhand
  | advanced hround hhand hl => exact h.advance hstaffed hround hhand hl
  | @finished r latency hround hhand hwaiting =>
      refine h.idle (fun n => ?_) (fun n => rfl) rfl fun n => ?_
      · rw [phaseOf_of_round hround, Round.phaseOf, hhand]
        rfl
      · simp [due, dispatches, hround]

end Served

/-- The sum of a number over all connections. -/
def tally (f : Line → Nat) : List Line → Nat
  | [] => 0
  | l :: ls => f l + tally f ls

theorem tally_append (f : Line → Nat) (ls : List Line) (l : Line) :
    tally f (ls ++ [l]) = tally f ls + f l := by
  induction ls with
  | nil => simp [tally]
  | cons k ls ih =>
      simp only [List.cons_append, tally, ih]
      omega

/-- One connection changes its number. -/
theorem tally_set (f : Line → Nat) {ls : List Line} {n : Nat} {l : Line}
    (hl : ls[n]? = some l) (l' : Line) :
    tally f (ls.set n l') + f l = tally f ls + f l' := by
  induction ls generalizing n with
  | nil => cases hl
  | cons k ls ih =>
      cases n with
      | zero =>
          cases hl
          simp only [List.set_cons_zero, tally]
          omega
      | succ n =>
          have hrest := ih (n := n) hl
          simp only [List.set_cons_succ, tally]
          omega

/-- The counters tell what happened to the connections. -/
structure Counted (w : Broadcast) : Prop where
  sent : w.hub.metrics.messagesSent = (tally Line.sent w.lines : Nat)
  errors :
    w.hub.metrics.errors = (w.complaints + tally Line.faults w.lines : Nat)

namespace Counted

/-- A connection changes, and the counters with it. -/
theorem set (h : w.Counted) {n s f : Nat} {l l' : Line}
    (hl : w.lines[n]? = some l) (hlines : w'.lines = w.lines.set n l')
    (hcomplaints : w'.complaints = w.complaints) (hsent : l'.sent = l.sent + s)
    (hfaults : l'.faults = l.faults + f)
    (hmetrics : w'.hub.metrics.messagesSent = w.hub.metrics.messagesSent + s)
    (hmetrics' : w'.hub.metrics.errors = w.hub.metrics.errors + f) :
    w'.Counted := by
  have hs := tally_set Line.sent hl l'
  have hf := tally_set Line.faults hl l'
  have hsent₀ := h.sent
  have herrors₀ := h.errors
  constructor
  · rw [hmetrics, hlines]
    omega
  · rw [hmetrics', hlines, hcomplaints]
    omega

theorem advance (h : w.Counted) {r : Round} {n : Nat} {phase : Phase}
    {l : Line} (hl : w.lines[n]? = some l) :
    (w.advance r n l phase).Counted := by
  unfold Broadcast.advance
  cases phase with
  | found =>
      dsimp only
      split
      · exact ⟨h.sent, h.errors⟩
      · exact ⟨h.sent, h.errors⟩
  | asked =>
      dsimp only
      split
      · exact h.set hl rfl rfl (s := 0) (f := 0) rfl rfl (Int.add_zero _).symm
          (Int.add_zero _).symm
      · exact h.set hl rfl rfl (s := 0) (f := 0) rfl rfl (Int.add_zero _).symm
          (Int.add_zero _).symm
  | accepted =>
      exact h.set hl rfl rfl (s := 1) (f := 0) rfl rfl rfl
        (Int.add_zero _).symm
  | refused =>
      exact h.set hl rfl rfl (s := 0) (f := 1) rfl rfl
        (Int.add_zero _).symm rfl
  | closing =>
      exact h.set hl rfl rfl (s := 0) (f := 0) rfl rfl (Int.add_zero _).symm
        (Int.add_zero _).symm

theorem step (h : w.Counted) (hmove : Move queueSize w w') : w'.Counted := by
  cases hmove with
  | @hub hub k hcalm =>
      refine ⟨hcalm.sent.trans h.sent, hcalm.errors.trans ?_⟩
      have herrors := h.errors
      show w.hub.metrics.errors + _ =
        ((w.complaints + k + tally Line.faults w.lines : Nat) : Int)
      omega
  | @quiet hub k n l l' hl hquiet hcalm =>
      have hs := tally_set Line.sent hl l'
      have hf := tally_set Line.faults hl l'
      have hsent := h.sent
      have herrors := h.errors
      rw [hquiet.sent] at hs
      rw [hquiet.faults] at hf
      refine ⟨hcalm.sent.trans ?_, hcalm.errors.trans ?_⟩
      · show w.hub.metrics.messagesSent =
          ((tally Line.sent (w.lines.set n l') : Nat) : Int)
        omega
      · show w.hub.metrics.errors + _ =
          ((w.complaints + k + tally Line.faults (w.lines.set n l') :
            Nat) : Int)
        omega
  | admitted hsession hsent herrors =>
      refine ⟨hsent.trans ?_, herrors.trans ?_⟩
      · rw [tally_append]
        exact h.sent
      · rw [tally_append]
        exact h.errors
  | started hround => exact ⟨h.sent, h.errors⟩
  | looked hround hhand hclient => exact ⟨h.sent, h.errors⟩
  | advanced hround hhand hl => exact h.advance hl
  | finished hround hhand hwaiting => exact ⟨h.sent, h.errors⟩

end Counted

/-- The three invariants together. -/
structure Faithful (queueSize : Int64) (w : Broadcast) : Prop where
  staffed : w.Staffed
  served : w.Served queueSize
  counted : w.Counted

theorem faithful_start (limiter : Limiter) (feed : Feed.Client)
    (releaseOnIdle : Bool) :
    (start limiter feed releaseOnIdle).Faithful queueSize where
  staffed :=
    { owner := fun c conn hstored => by simp [start, Pool.get?] at hstored
      distinct := Registry.distinct_empty
      past := fun d hd => by cases hd
      round := fun r hr => by cases hr }
  served := fun n l hl => by simp [start] at hl
  counted := ⟨rfl, rfl⟩

theorem Faithful.step (h : w.Faithful queueSize) {e : Event}
    (hstep : w.step queueSize e = some w') : w'.Faithful queueSize where
  staffed := h.staffed.step (move_of_step hstep)
  served := h.served.step h.staffed (move_of_step hstep)
  counted := h.counted.step (move_of_step hstep)

/-- After a refusal, a connection takes and counts nothing more. -/
theorem final_of_move {n : Nat} {l : Line} (h : w.Served queueSize)
    (hmove : Move queueSize w w') (hl : w.lines[n]? = some l)
    (hrefused : l.refused ≠ []) :
    ∃ l', w'.lines[n]? = some l' ∧ l'.ticks = l.ticks ∧ l'.sent = l.sent ∧
      l'.refused = l.refused := by
  have hsame : ∃ l', w.lines[n]? = some l' ∧ l'.ticks = l.ticks ∧
      l'.sent = l.sent ∧ l'.refused = l.refused := ⟨l, hl, rfl, rfl, rfl⟩
  have hset : ∀ {m : Nat} {k k' : Line}, w.lines[m]? = some k →
      (m = n → k'.ticks = k.ticks ∧ k'.sent = k.sent ∧
        k'.refused = k.refused) →
      ∃ l', (w.lines.set m k')[n]? = some l' ∧
        l'.ticks = l.ticks ∧ l'.sent = l.sent ∧ l'.refused = l.refused := by
    intro m k k' hk hkeep
    rw [lines_set hk]
    by_cases hm : m = n
    · rw [hm, hl] at hk
      cases hk
      exact ⟨k', if_pos hm, hkeep hm⟩
    · rw [if_neg hm]
      exact hsame
  cases hmove with
  | hub hcalm => exact hsame
  | quiet hk hquiet hcalm =>
      exact hset hk fun _ => ⟨hquiet.ticks, hquiet.sent, hquiet.refused⟩
  | admitted hsession hsent herrors =>
      refine ⟨l, ?_, rfl, rfl, rfl⟩
      rw [List.getElem?_append_left (List.getElem?_eq_some_iff.mp hl).1]
      exact hl
  | started hround => exact hsame
  | looked hround hhand hclient => exact hsame
  | @advanced r m phase k hround hhand hk =>
      have hclear : m = n → phase ≠ .asked ∧ phase ≠ .accepted := by
        rintro rfl
        rw [hl] at hk
        cases hk
        have hkept := h m l hl
        rw [phaseOf_of_hand hround hhand] at hkept
        constructor
        · rintro rfl
          exact hrefused (hkept.clear (Or.inl rfl))
        · rintro rfl
          exact hrefused (hkept.clear (Or.inr rfl))
      unfold advance
      cases phase with
      | found =>
          dsimp only
          split
          · exact hsame
          · exact hsame
      | asked =>
          dsimp only
          split
          · exact hset hk fun hm => absurd rfl (hclear hm).1
          · exact hset hk fun hm => absurd rfl (hclear hm).1
      | accepted => exact hset hk fun hm => absurd rfl (hclear hm).2
      | refused => exact hset hk fun _ => ⟨rfl, rfl, rfl⟩
      | closing =>
          have hclose := k.quiet_close
          exact hset hk fun _ => ⟨hclose.ticks, hclose.sent, hclose.refused⟩
  | finished hround hhand hwaiting => exact hsame

theorem final_of_run {n : Nat} {l : Line} (h : w.Faithful queueSize)
    {es : List Event} (hrun : Runs.run (step queueSize) w es = some w')
    (hl : w.lines[n]? = some l) (hrefused : l.refused ≠ []) :
    ∃ l', w'.lines[n]? = some l' ∧ l'.ticks = l.ticks ∧ l'.sent = l.sent ∧
      l'.refused = l.refused := by
  induction es generalizing w l with
  | nil =>
      cases hrun
      exact ⟨l, hl, rfl, rfl, rfl⟩
  | cons e es ih =>
      obtain ⟨v, hstep, hrest⟩ := Runs.run_cons.mp hrun
      obtain ⟨k, hk, hticks, hsent, hsame⟩ :=
        final_of_move h.served (move_of_step hstep) hl hrefused
      obtain ⟨l', hl', hticks', hsent', hsame'⟩ :=
        ih (h.step hstep) hrest hk (hsame ▸ hrefused)
      exact ⟨l', hl', hticks'.trans hticks, hsent'.trans hsent,
        hsame'.trans hsame⟩

/-- What a client gets on a connection, after some events. -/
structure Delivers (queueSize : Int64) (w : Broadcast) (n : Nat) (l : Line) :
    Prop where
  /-- What was written is a front part of what the session took. -/
  written : l.written <+: l.accepted.map Queued.text
  /-- The ticks for which the connection was found are those that the session
  took, then the one that is being offered, or the one that was refused. -/
  due : w.due n =
    l.ticks ++ (if w.phaseOf n = some .asked then [w.frame] else []) ++
    l.refused
  clear : w.phaseOf n = some .asked → l.refused = []
  once : l.refused.length ≤ 1
  /-- It was found as the connection of a subscriber. -/
  subscribed : ∀ d ∈ w.dispatches, n ∈ d.found → l.client ∈ d.subscribers
  /-- A refusal closes the connection; the dispatcher does nothing else before
  that. -/
  closed : l.refused ≠ [] →
    l.session.isOpen = false ∨ w.phaseOf n = some .refused ∨
    w.phaseOf n = some .closing
  /-- Each tick that was taken is counted as sent, once. -/
  sent : l.sent + (if w.phaseOf n = some .accepted then 1 else 0) =
    l.ticks.length
  /-- A refusal is counted as an error, once. -/
  faults : l.faults + (if w.phaseOf n = some .refused then 1 else 0) =
    l.refused.length
  /-- After a refusal nothing more is taken or counted, whatever happens. -/
  final : l.refused ≠ [] → ∀ es w', Runs.run (step queueSize) w es = some w' →
    ∃ l', w'.lines[n]? = some l' ∧ l'.ticks = l.ticks ∧ l'.sent = l.sent ∧
    l'.refused = l.refused
  /-- The queue keeps to its size. -/
  room : (l.session.queue.length : Int) ≤ queueSize.toInt

theorem Staffed.subscribed (h : w.Staffed) {n : Nat} {l : Line}
    (hl : w.lines[n]? = some l) {d : Dispatched} (hd : d ∈ w.dispatches)
    (hn : n ∈ d.found) : l.client ∈ d.subscribers := by
  have hclient : w.clients[n]? = some l.client := by
    rw [clients, List.getElem?_map, hl]
    rfl
  obtain ⟨c, hsub, hc⟩ : ∃ c ∈ d.subscribers, w.clients[n]? = some c := by
    rcases List.mem_append.mp hd with hpast | hcurrent
    · exact h.past d hpast n hn
    · obtain ⟨r, hr, rfl⟩ := List.mem_map.mp hcurrent
      obtain ⟨c, hsub, hc, -⟩ :=
        (h.round r (Option.mem_toList.mp hr)).served n hn
      exact ⟨c, hsub, hc⟩
  rw [hclient] at hc
  cases hc
  exact hsub

theorem Faithful.delivers (h : w.Faithful queueSize) {n : Nat} {l : Line}
    (hl : w.lines[n]? = some l) : w.Delivers queueSize n l := by
  have hkept := h.served n l hl
  have hroom := hkept.ordered.room
  have hcapacity := hkept.capacity
  constructor
  case written =>
    rw [hkept.ordered.frames, List.append_assoc]
    exact List.prefix_append _ _
  case due => exact hkept.due
  case clear => exact fun hasked => hkept.clear (Or.inl hasked)
  case once => exact hkept.once
  case subscribed => exact fun d hd hn => h.staffed.subscribed hl hd hn
  case closed => exact hkept.shut
  case sent => exact hkept.sent
  case faults => exact hkept.faults
  case final => exact fun hrefused es w' hrun =>
    final_of_run h hrun hl hrefused
  case room => omega

/-- **A client sees every tick in order until it is closed.** However the
dispatcher, the readers, the pumps and those who close sessions take turns,
what is written on a connection is a front part of what its session took. The
ticks among that are those for which the connection was found, each once and in
order, up to the first one for which there was no room. That one closes the
connection and is counted as one error, and no tick is taken or counted after
it. -/
theorem delivers_in_order {limiter : Limiter} {feed : Feed.Client}
    {releaseOnIdle : Bool} {es : List Event}
    (h : Runs.run (step queueSize) (start limiter feed releaseOnIdle) es =
      some w) :
    (∀ n l, w.lines[n]? = some l → w.Delivers queueSize n l) ∧
    w.hub.metrics.messagesSent = (tally Line.sent w.lines : Nat) ∧
    w.hub.metrics.errors =
      (w.complaints + tally Line.faults w.lines : Nat) := by
  have hfaithful : w.Faithful queueSize :=
    Runs.run_invariant (fun _ _ _ hs hstep => hs.step hstep)
      (faithful_start limiter feed releaseOnIdle) h
  exact ⟨fun n l hl => hfaithful.delivers hl, hfaithful.counted.sent,
    hfaithful.counted.errors⟩

def tickAt (time : String) : Tick :=
  { symbol := utf8 "BTC", timestamp := utf8 time }

/-- Two clients with room for one frame. The session of the second is closed
while it is offered a tick; the first has no room for the next tick, and is
found closed by the one after that. -/
def crowded : List Event :=
  let subscribe : Bytes :=
    utf8 "\x7b\"type\":\"subscribe\",\"symbol\":\"btc\"\x7d"
  [.arrive ⟨0⟩ (utf8 "c"), .arrive ⟨0⟩ (utf8 "d"), .read 0 subscribe,
    .read 1 subscribe,
    .dispatch (tickAt "1"), .look (utf8 "d"), .advance, .close 1,
    .advance, .advance,
    .look (utf8 "c"), .advance, .advance, .advance, .finish .zero,
    .dispatch (tickAt "2"), .look (utf8 "c"), .advance, .advance, .take 0,
    .advance, .advance,
    .look (utf8 "d"), .advance, .finish .zero,
    .dispatch (tickAt "3"), .look (utf8 "d"), .advance, .look (utf8 "c"),
    .advance, .finish .zero,
    .write 0 true]

def crowded? : Option Broadcast :=
  Runs.run (step 1) (start { window := 60, max := 5 } {} false) crowded

/-- The first client reads the first tick, and the second tick is its last
one. -/
theorem delivers_in_order_of_crowded :
    ∃ w l k f₁ f₂, crowded? = some w ∧ w.lines = [l, k] ∧
      (tickAt "1").encode? = some f₁ ∧ (tickAt "2").encode? = some f₂ ∧
      w.due 0 = [f₁, f₂] ∧ l.ticks = [f₁] ∧ l.refused = [f₂] ∧
      l.session.isOpen = false ∧
      l.written = [Websocket.frame .text f₁] ∧
      w.due 1 = [f₁] ∧ k.ticks = [f₁] ∧ k.refused = [] ∧
      k.session.isOpen = false ∧ k.written = [] ∧
      w.hub.metrics.messagesSent = 2 ∧ w.hub.metrics.errors = 1 ∧
      w.Delivers 1 0 l ∧ w.Delivers 1 1 k := by
  obtain ⟨w, hrun⟩ : ∃ w, crowded? = some w :=
    Option.isSome_iff_exists.mp (by decide +kernel)
  obtain ⟨f₁, h₁⟩ : ∃ f, (tickAt "1").encode? = some f :=
    Option.isSome_iff_exists.mp (by decide +kernel)
  obtain ⟨f₂, h₂⟩ : ∃ f, (tickAt "2").encode? = some f :=
    Option.isSome_iff_exists.mp (by decide +kernel)
  have hticks : crowded?.map (fun w =>
        (w.lines.map Line.ticks, w.lines.map Line.refused)) =
      (tickAt "1").encode?.bind fun f₁ => (tickAt "2").encode?.map fun f₂ =>
        ([[f₁], [f₁]], [[f₂], []]) := by
    decide +kernel
  have hdue : crowded?.map (fun w => (w.due 0, w.due 1)) =
      (tickAt "1").encode?.bind fun f₁ => (tickAt "2").encode?.map fun f₂ =>
        ([f₁, f₂], [f₁]) := by
    decide +kernel
  have hwritten : crowded?.map (fun w =>
        (w.lines.map Line.written, w.lines.map (·.session.isOpen))) =
      (tickAt "1").encode?.map fun f₁ =>
        ([[Websocket.frame .text f₁], []], [false, false]) := by
    decide +kernel
  have hcounters : crowded?.map (fun w => (w.lines.length,
        w.hub.metrics.messagesSent, w.hub.metrics.errors)) =
      some (2, 2, 1) := by
    decide +kernel
  rw [hrun, h₁, h₂] at hticks hdue
  rw [hrun, h₁] at hwritten
  rw [hrun] at hcounters
  simp only [Option.map_some, Option.bind_some, Option.some.injEq,
    Prod.mk.injEq] at hticks hdue
  simp only [Option.map_some, Option.some.injEq, Prod.mk.injEq]
    at hwritten hcounters
  obtain ⟨l, k, hlines⟩ := List.length_eq_two.mp hcounters.1
  simp only [hlines, List.map_cons, List.map_nil, List.cons.injEq, and_true]
    at hticks hwritten
  obtain ⟨⟨hl, hk⟩, hl', hk'⟩ := hticks
  obtain ⟨⟨hl₁, hk₁⟩, hl₂, hk₂⟩ := hwritten
  obtain ⟨hdelivers, -, -⟩ := delivers_in_order hrun
  exact ⟨w, l, k, f₁, f₂, hrun, hlines, h₁, h₂, hdue.1, hl, hl', hl₂, hl₁,
    hdue.2, hk, hk', hk₂, hk₁, hcounters.2.1, hcounters.2.2,
    hdelivers 0 l (by rw [hlines]; rfl), hdelivers 1 k (by rw [hlines]; rfl)⟩

end Broadcast

end Server
end TickRelay
