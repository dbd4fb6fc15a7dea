import TickRelay.Proofs.FeedView
import TickRelay.Proofs.ProviderExchange
import TickRelay.Proofs.RegistryView
import Mathlib.Data.List.Perm.Basic

/-!
# Subscribers and provider agree

The feed is subscribed to what clients are subscribed to, whenever no call is
under way. While calls are under way the two may differ, but then somebody has
still to settle the difference.

**Algorithm.** `Agrees` is the invariant. A symbol with subscribers is in the
list of the feed, or a call is going to put it there; with release on idle, a
symbol without subscribers is not in the list, or a call is going to take it
out. The look at the subscribers and the calls it leads to do not happen at
once. If the subscribers change in between, the call that changed them waits
for the lock, and it settles the symbol after the calls that came too late: the
last two fields.

**Results.** `agrees_of_step` is the step, and `agreement` what it says when no
call is under way.
-/

namespace TickRelay
namespace Exchange

variable {x y : Exchange} {e : Event}

/-- An errand that is not begun. -/
def Awaits (x : Exchange) (e : Errand) : Prop :=
  e ∈ x.waiting.flatten ∨ ∃ h, x.holder = some h ∧ e ∈ h.rest

/-- The holder has an errand and did not look at the subscribers yet. -/
def Begins (x : Exchange) (e : Errand) : Prop :=
  ∃ h, x.holder = some h ∧ h.plan = none ∧ h.errand = e

/-- The holder decided on a call and did not make it yet. -/
def Plans (x : Exchange) (c : ProviderCall) : Prop :=
  ∃ h cs, x.holder = some h ∧ h.plan = some cs ∧ c ∈ cs

/-- Somebody is going to subscribe a symbol if it has subscribers then. -/
def Joining (x : Exchange) (s : Bytes) : Prop :=
  x.Awaits (.join s) ∨ x.Begins (.join s) ∨ x.Plans (.subscribe s)

/-- Somebody is going to withdraw a symbol if it has no subscribers then. -/
def Leaving (x : Exchange) (s : Bytes) : Prop :=
  x.Awaits (.leave s) ∨ x.Begins (.leave s) ∨ x.Plans (.unsubscribe s)

/-- The calls that are left of a plan. A symbol is subscribed only after a
connection was wanted. -/
inductive Left (h : Hub) : List ProviderCall → Prop
  | nothing : Left h []
  | connect (s : Bytes) : Left h [.connect, .subscribe s]
  | subscribe (s : Bytes) (hw : h.feed.isWanted = true) : Left h [.subscribe s]
  | unsubscribe (s : Bytes) : Left h [.unsubscribe s]

/-- Subscribers and feed differ only where somebody settles the difference. -/
structure Agrees (x : Exchange) : Prop where
  proper : x.hub.registry.Proper
  nodup : x.hub.feed.symbols.Nodup
  left : ∀ h cs, x.holder = some h → h.plan = some cs → Left x.hub cs
  subscribed : ∀ s, x.hub.registry.hasSubscribers s = true →
    (s ∈ x.hub.feed.symbols ∧ x.hub.feed.isWanted = true) ∨ x.Joining s
  released : x.hub.releaseOnIdle = true → ∀ s ∈ x.joined,
    ¬x.hub.registry.hasSubscribers s = true →
    s ∈ x.hub.feed.symbols → x.Leaving s
  subscribedAgain : ∀ s, x.Plans (.unsubscribe s) →
    x.hub.registry.hasSubscribers s = true → x.Awaits (.join s)
  releasedAgain : x.hub.releaseOnIdle = true → ∀ s, x.Plans (.subscribe s) →
    ¬x.hub.registry.hasSubscribers s = true → x.Awaits (.leave s)

section Holder

variable {errand e : Errand} {plan : Option (List ProviderCall)}
  {cs : List ProviderCall} {rest : List Errand} {c : ProviderCall}

theorem awaits_of_free (hk : x.holder = none) :
    x.Awaits e ↔ e ∈ x.waiting.flatten := by
  simp [Awaits, hk]

theorem awaits_of_held (hk : x.holder = some ⟨errand, plan, rest⟩) :
    x.Awaits e ↔ e ∈ x.waiting.flatten ∨ e ∈ rest := by
  simp [Awaits, hk]

theorem begins_of_unlooked (hk : x.holder = some ⟨errand, none, rest⟩) :
    x.Begins e ↔ errand = e := by
  simp [Begins, hk]

theorem plans_of_looked (hk : x.holder = some ⟨errand, some cs, rest⟩) :
    x.Plans c ↔ c ∈ cs := by
  simp [Plans, hk]

theorem not_begins_of_free (hk : x.holder = none) : ¬x.Begins e := by
  simp [Begins, hk]

theorem not_begins_of_looked (hk : x.holder = some ⟨errand, some cs, rest⟩) :
    ¬x.Begins e := by
  simp [Begins, hk]

theorem not_plans_of_free (hk : x.holder = none) : ¬x.Plans c := by
  simp [Plans, hk]

theorem not_plans_of_unlooked (hk : x.holder = some ⟨errand, none, rest⟩) :
    ¬x.Plans c := by
  simp [Plans, hk]

end Holder

section Subscribers

theorem awaits_enqueue {errands : List Errand} {e : Errand} :
    (x.enqueue errands).Awaits e ↔ x.Awaits e ∨ e ∈ errands := by
  unfold enqueue
  split
  · rename_i h
    simp [List.isEmpty_iff.mp h]
  · simp only [Awaits, List.flatten_append, List.mem_append,
      List.flatten_singleton]
    exact or_right_comm

/-- A change of subscribers is harmless when its call settles every symbol that
is new or idle. -/
theorem Agrees.register (h : x.Agrees) {registry : Registry}
    {joined : List Bytes} {errands : List Errand} (hproper : registry.Proper)
    (hnew : ∀ s, registry.hasSubscribers s = true →
      ¬x.hub.registry.hasSubscribers s = true → .join s ∈ errands)
    (hidle : x.hub.releaseOnIdle = true →
      ∀ s, x.hub.registry.hasSubscribers s = true →
      ¬registry.hasSubscribers s = true → .leave s ∈ errands)
    (hjoined : ∀ s ∈ joined, s ∈ x.joined ∨ registry.hasSubscribers s = true) :
    Agrees ({ x with
      hub := { x.hub with registry }, joined }.enqueue errands) := by
  set z : Exchange := { x with hub := { x.hub with registry }, joined } with hz
  have hawaits : ∀ e, x.Awaits e → (z.enqueue errands).Awaits e := fun e he =>
    awaits_enqueue.mpr (Or.inl he)
  have hfresh : ∀ e ∈ errands, (z.enqueue errands).Awaits e := fun e he =>
    awaits_enqueue.mpr (Or.inr he)
  have hbegins : ∀ e, x.Begins e → (z.enqueue errands).Begins e := by
    simp only [Begins, enqueue_holder]
    exact fun e he => he
  have hplans : ∀ c, (z.enqueue errands).Plans c ↔ x.Plans c := by
    simp only [Plans, enqueue_holder]
    exact fun c => Iff.rfl
  refine ⟨?_, ?_, ?_, ?_, ?_, ?_, ?_⟩
  · simpa using hproper
  · simpa using h.nodup
  · intro k cs hk hcs
    rw [enqueue_holder] at hk
    rw [enqueue_hub]
    cases h.left k cs hk hcs with
    | nothing => exact .nothing
    | connect s => exact .connect s
    | subscribe s hw => exact .subscribe s hw
    | unsubscribe s => exact .unsubscribe s
  · intro s hs
    rw [enqueue_hub] at hs ⊢
    by_cases hold : x.hub.registry.hasSubscribers s = true
    · rcases h.subscribed s hold with hin | hj | hb | hp
      · exact Or.inl hin
      · exact Or.inr (Or.inl (hawaits _ hj))
      · exact Or.inr (Or.inr (Or.inl (hbegins _ hb)))
      · exact Or.inr (Or.inr (Or.inr ((hplans _).mpr hp)))
    · exact Or.inr (Or.inl (hfresh _ (hnew s hs hold)))
  · intro hr s hs hnone hin
    rw [enqueue_hub] at hr hnone hin
    rw [enqueue_joined] at hs
    by_cases hold : x.hub.registry.hasSubscribers s = true
    · exact Or.inl (hfresh _ (hidle hr s hold hnone))
    · have hs' : s ∈ x.joined := (hjoined s hs).resolve_right hnone
      rcases h.released hr s hs' hold hin with hj | hb | hp
      · exact Or.inl (hawaits _ hj)
      · exact Or.inr (Or.inl (hbegins _ hb))
      · exact Or.inr (Or.inr ((hplans _).mpr hp))
  · intro s hp hs
    rw [enqueue_hub] at hs
    by_cases hold : x.hub.registry.hasSubscribers s = true
    · exact hawaits _ (h.subscribedAgain s ((hplans _).mp hp) hold)
    · exact hfresh _ (hnew s hs hold)
  · intro hr s hp hnone
    rw [enqueue_hub] at hr hnone
    by_cases hold : x.hub.registry.hasSubscribers s = true
    · exact hfresh _ (hidle hr s hold hnone)
    · exact hawaits _ (h.releasedAgain hr s ((hplans _).mp hp) hold)

theorem Agrees.subscribe (h : x.Agrees) (client s : Bytes) :
    Agrees ({ x with
      hub := { x.hub with registry := (x.hub.registry.join client s).1 }
      joined := s :: x.joined }.enqueue
        (if (x.hub.registry.join client s).2 then [.join s] else [])) := by
  apply h.register h.proper.join
  · intro t ht hnone
    have hts : t = s :=
      (Registry.hasSubscribers_join.mp ht).resolve_right hnone
    subst hts
    rw [Registry.join_isNew, if_pos (by simpa using hnone)]
    exact List.mem_cons_self
  · intro _ t ht hnone
    exact absurd (Registry.hasSubscribers_join.mpr (Or.inr ht)) hnone
  · intro t ht
    rcases List.mem_cons.mp ht with rfl | hj
    · exact Or.inr (Registry.hasSubscribers_join.mpr (Or.inl rfl))
    · exact Or.inl hj

theorem Agrees.unsubscribe (h : x.Agrees) (client s : Bytes) :
    Agrees ({ x with
      hub := { x.hub with
        registry := (x.hub.registry.leave client s).1 } }.enqueue
      (releases x.hub
        (if (x.hub.registry.leave client s).2 then [s] else []))) := by
  refine h.register h.proper.leave ?_ ?_ (fun t ht => Or.inl ht)
  · intro t ht hnone
    have hsub : ∀ c ∈ (x.hub.registry.leave client s).1.clients t,
        c ∈ x.hub.registry.clients t :=
      fun c hc => (Registry.mem_clients_leave.mp hc).1
    exact absurd
      (h.proper.hasSubscribers_of_subset h.proper.leave hsub ht) hnone
  · intro hr t ht hnone
    obtain ⟨rfl, hidle⟩ := Registry.leave_isIdle.mpr ⟨ht, hnone⟩
    rw [mem_releases, if_pos hidle]
    exact ⟨hr, List.mem_cons_self⟩

theorem Agrees.unsubscribeAll (h : x.Agrees) (client : Bytes)
    {order : List Bytes}
    (horder : order.Perm (x.hub.registry.leaveAll client).2.2) :
    Agrees ({ x with
      hub := { x.hub with
        registry := (x.hub.registry.leaveAll client).1 } }.enqueue
          (releases x.hub order)) := by
  refine h.register h.proper.leaveAll ?_ ?_ (fun t ht => Or.inl ht)
  · intro t ht hnone
    have hsub : ∀ c ∈ (x.hub.registry.leaveAll client).1.clients t,
        c ∈ x.hub.registry.clients t :=
      fun c hc => (Registry.mem_clients_leaveAll.mp hc).1
    exact absurd
      (h.proper.hasSubscribers_of_subset h.proper.leaveAll hsub ht) hnone
  · intro hr t ht hnone
    rw [mem_releases, horder.mem_iff]
    exact ⟨hr, h.proper.mem_idle_iff.mpr ⟨ht, hnone⟩⟩

end Subscribers

section Lock

/-- An event that changes neither subscribers nor the list of the feed is
harmless when every difference is still settled afterwards. -/
theorem Agrees.of_same_list (h : x.Agrees)
    (hregistry : y.hub.registry = x.hub.registry)
    (hsymbols : y.hub.feed.symbols = x.hub.feed.symbols)
    (hrelease : y.hub.releaseOnIdle = x.hub.releaseOnIdle)
    (hjoined : y.joined = x.joined)
    (hwanted : x.hub.feed.isWanted = true → y.hub.feed.isWanted = true)
    (hleft : ∀ k cs, y.holder = some k → k.plan = some cs → Left y.hub cs)
    (hjoin : ∀ s, x.hub.registry.hasSubscribers s = true →
      x.Joining s → y.Joining s)
    (hleave : x.hub.releaseOnIdle = true →
      ∀ s, ¬x.hub.registry.hasSubscribers s = true → x.Leaving s → y.Leaving s)
    (hagain : ∀ s, y.Plans (.unsubscribe s) →
      x.hub.registry.hasSubscribers s = true → y.Awaits (.join s))
    (hagain' : x.hub.releaseOnIdle = true → ∀ s, y.Plans (.subscribe s) →
      ¬x.hub.registry.hasSubscribers s = true → y.Awaits (.leave s)) :
    y.Agrees := by
  refine ⟨hregistry ▸ h.proper, hsymbols ▸ h.nodup, hleft, ?_, ?_, ?_, ?_⟩
  · intro s hs
    rw [hregistry] at hs
    rw [hsymbols]
    rcases h.subscribed s hs with ⟨hin, hw⟩ | hj
    · exact Or.inl ⟨hin, hwanted hw⟩
    · exact Or.inr (hjoin s hs hj)
  · intro hr s hs hnone hin
    rw [hrelease] at hr
    rw [hjoined] at hs
    rw [hregistry] at hnone
    rw [hsymbols] at hin
    exact hleave hr s hnone (h.released hr s hs hnone hin)
  · intro s hp hs
    rw [hregistry] at hs
    exact hagain s hp hs
  · intro hr s hp hnone
    rw [hrelease] at hr
    rw [hregistry] at hnone
    exact hagain' hr s hp hnone

/-- The errands of a call that gets the lock are begun or still wait. -/
theorem awaits_of_lock {n : Nat} {errand : Errand} {rest : List Errand}
    (hn : x.waiting[n]? = some (errand :: rest)) {e : Errand}
    (he : e ∈ x.waiting.flatten) :
    e = errand ∨ e ∈ rest ∨ e ∈ (x.waiting.eraseIdx n).flatten := by
  obtain ⟨hlt, hget⟩ := List.getElem?_eq_some_iff.mp hn
  obtain ⟨l, hl, hel⟩ := List.mem_flatten.mp he
  have hperm := List.getElem_cons_eraseIdx_perm hlt
  rcases List.mem_cons.mp (hperm.mem_iff.mpr hl) with hhead | htail
  · rw [hhead, hget] at hel
    rcases List.mem_cons.mp hel with heq | hr
    · exact Or.inl heq
    · exact Or.inr (Or.inl hr)
  · exact Or.inr (Or.inr (List.mem_flatten.mpr ⟨l, htail, hel⟩))

theorem Agrees.lock (h : x.Agrees) {n : Nat} {errand : Errand}
    {rest : List Errand} (hfree : x.holder = none)
    (hn : x.waiting[n]? = some (errand :: rest)) :
    Agrees { x with
      holder := some { errand, rest }, waiting := x.waiting.eraseIdx n } := by
  set z : Exchange := { x with
    holder := some { errand, rest }, waiting := x.waiting.eraseIdx n } with hz
  have hheld : z.holder = some ⟨errand, none, rest⟩ := rfl
  have hmoved : ∀ e, x.Awaits e → z.Awaits e ∨ z.Begins e := by
    intro e he
    rw [awaits_of_held hheld, begins_of_unlooked hheld]
    rcases awaits_of_lock hn ((awaits_of_free hfree).mp he) with rfl | hr | hw
    · exact Or.inr rfl
    · exact Or.inl (Or.inr hr)
    · exact Or.inl (Or.inl hw)
  refine h.of_same_list rfl rfl rfl rfl id ?_ ?_ ?_ ?_ ?_
  · intro k cs hk hcs
    cases hk
    cases hcs
  · rintro s _ (ha | hb | hp)
    · rcases hmoved _ ha with hw | hb
      · exact Or.inl hw
      · exact Or.inr (Or.inl hb)
    · exact absurd hb (not_begins_of_free hfree)
    · exact absurd hp (not_plans_of_free hfree)
  · rintro _ s _ (ha | hb | hp)
    · rcases hmoved _ ha with hw | hb
      · exact Or.inl hw
      · exact Or.inr (Or.inl hb)
    · exact absurd hb (not_begins_of_free hfree)
    · exact absurd hp (not_plans_of_free hfree)
  · exact fun s hp => absurd hp (not_plans_of_unlooked hheld)
  · exact fun _ s hp => absurd hp (not_plans_of_unlooked hheld)

theorem mem_calls_subscribe {k : Hub} {errand : Errand} {s : Bytes} :
    .subscribe s ∈ errand.calls k ↔ errand = .join s ∧
    k.registry.hasSubscribers s = true := by
  cases errand with
  | join t =>
      simp only [Errand.calls, Registry.callsAfterJoin]
      split
      · rename_i ht
        simp only [List.mem_cons, reduceCtorEq, ProviderCall.subscribe.injEq,
          List.not_mem_nil, or_false, false_or, Errand.join.injEq]
        constructor
        · rintro rfl
          exact ⟨rfl, ht⟩
        · rintro ⟨rfl, _⟩
          rfl
      · rename_i ht
        simp only [List.not_mem_nil, false_iff, Errand.join.injEq, not_and]
        rintro rfl
        exact ht
  | leave t =>
      simp only [Errand.calls, Registry.callsAfterLeave]
      split
      · simp
      · simp

theorem mem_calls_unsubscribe {k : Hub} {errand : Errand} {s : Bytes} :
    .unsubscribe s ∈ errand.calls k ↔
      errand = .leave s ∧ k.releaseOnIdle = true ∧
      ¬k.registry.hasSubscribers s = true := by
  cases errand with
  | join t =>
      simp only [Errand.calls, Registry.callsAfterJoin]
      split
      · simp
      · simp
  | leave t =>
      simp only [Errand.calls, Registry.callsAfterLeave]
      split
      · rename_i ht
        simp only [List.mem_singleton, ProviderCall.unsubscribe.injEq,
          Errand.leave.injEq]
        constructor
        · rintro rfl
          simpa using ht
        · rintro ⟨rfl, _⟩
          rfl
      · rename_i ht
        simp only [List.not_mem_nil, false_iff, Errand.leave.injEq]
        rintro ⟨rfl, hrest⟩
        exact ht (by simpa using hrest)

theorem left_calls (k : Hub) (errand : Errand) : Left k (errand.calls k) := by
  cases errand with
  | join t =>
      simp only [Errand.calls, Registry.callsAfterJoin]
      split
      · exact .connect t
      · exact .nothing
  | leave t =>
      simp only [Errand.calls, Registry.callsAfterLeave]
      split
      · exact .unsubscribe t
      · exact .nothing

theorem Agrees.look (h : x.Agrees) {errand : Errand} {rest : List Errand}
    (hheld : x.holder = some ⟨errand, none, rest⟩) :
    Agrees { x with
      holder :=
        some { errand, plan := some (errand.calls x.hub), rest } } := by
  set z : Exchange := { x with
    holder := some { errand, plan := some (errand.calls x.hub), rest } } with hz
  have hlooked : z.holder = some ⟨errand, some (errand.calls x.hub), rest⟩ :=
    rfl
  have hawaits : ∀ e, x.Awaits e → z.Awaits e := by
    intro e he
    rw [awaits_of_held hlooked]
    exact (awaits_of_held hheld).mp he
  refine h.of_same_list rfl rfl rfl rfl id ?_ ?_ ?_ ?_ ?_
  · intro k cs hk hcs
    cases hk
    cases hcs
    exact left_calls x.hub errand
  · rintro s hs (ha | hb | hp)
    · exact Or.inl (hawaits _ ha)
    · have he := (begins_of_unlooked hheld).mp hb
      exact Or.inr
        (Or.inr ((plans_of_looked hlooked).mpr
          (mem_calls_subscribe.mpr ⟨he, hs⟩)))
    · exact absurd hp (not_plans_of_unlooked hheld)
  · rintro hr s hs (ha | hb | hp)
    · exact Or.inl (hawaits _ ha)
    · have he := (begins_of_unlooked hheld).mp hb
      exact Or.inr
        (Or.inr ((plans_of_looked hlooked).mpr
          (mem_calls_unsubscribe.mpr ⟨he, hr, hs⟩)))
    · exact absurd hp (not_plans_of_unlooked hheld)
  -- What is decided on fits the subscribers as they are at this moment.
  · intro s hp hs
    have hc := mem_calls_unsubscribe.mp ((plans_of_looked hlooked).mp hp)
    exact absurd hs hc.2.2
  · intro _ s hp hnone
    have hc := mem_calls_subscribe.mp ((plans_of_looked hlooked).mp hp)
    exact absurd hc.2 hnone

theorem Agrees.unlock (h : x.Agrees) {errand : Errand} {rest : List Errand}
    (hheld : x.holder = some ⟨errand, some [], rest⟩) :
    Agrees ({ x with holder := none }.enqueue rest) := by
  set z : Exchange := { x with holder := none } with hz
  have hfree : (z.enqueue rest).holder = none := enqueue_holder rest
  have hawaits : ∀ e, x.Awaits e → (z.enqueue rest).Awaits e := by
    intro e he
    rw [awaits_enqueue]
    rcases (awaits_of_held hheld).mp he with hw | hr
    · exact Or.inl (Or.inl hw)
    · exact Or.inr hr
  have hmade : ∀ c, ¬x.Plans c := fun c hp =>
    List.not_mem_nil ((plans_of_looked hheld).mp hp)
  refine h.of_same_list ?_ ?_ ?_ ?_ ?_ ?_ ?_ ?_ ?_ ?_
  · rw [enqueue_hub]
  · rw [enqueue_hub]
  · rw [enqueue_hub]
  · rw [enqueue_joined]
  · rw [enqueue_hub]
    exact id
  · intro k cs hk _
    rw [hfree] at hk
    cases hk
  · rintro s _ (ha | hb | hp)
    · exact Or.inl (hawaits _ ha)
    · exact absurd hb (not_begins_of_looked hheld)
    · exact absurd hp (hmade _)
  · rintro _ s _ (ha | hb | hp)
    · exact Or.inl (hawaits _ ha)
    · exact absurd hb (not_begins_of_looked hheld)
    · exact absurd hp (hmade _)
  · exact fun s hp => absurd hp (not_plans_of_free hfree)
  · exact fun _ s hp => absurd hp (not_plans_of_free hfree)

end Lock

section Calls

variable {errand : Errand} {rest : List Errand}

/-- The exchange after its holder made a call. -/
def called (x : Exchange) (c : ProviderCall) (holder : Holder) : Exchange :=
  { x with hub := x.hub.call [c], holder := some holder }

theorem awaits_called {c : ProviderCall}
    {plan plan' : Option (List ProviderCall)} {e : Errand}
    (hheld : x.holder = some ⟨errand, plan, rest⟩) :
    (x.called c ⟨errand, plan', rest⟩).Awaits e ↔ x.Awaits e := by
  rw [awaits_of_held hheld]
  exact awaits_of_held rfl

theorem Agrees.callConnect (h : x.Agrees) {s : Bytes}
    (hheld : x.holder = some ⟨errand, some [.connect, .subscribe s], rest⟩) :
    (x.called .connect ⟨errand, some [.subscribe s], rest⟩).Agrees := by
  set z := x.called .connect ⟨errand, some [.subscribe s], rest⟩ with hz
  have hheld' : z.holder = some ⟨errand, some [.subscribe s], rest⟩ := rfl
  refine h.of_same_list rfl rfl rfl rfl (fun _ => rfl) ?_ ?_ ?_ ?_ ?_
  · intro k cs hk hcs
    cases hk
    cases hcs
    exact .subscribe s rfl
  · rintro t _ (ha | hb | hp)
    · exact Or.inl ((awaits_called hheld).mpr ha)
    · exact absurd hb (not_begins_of_looked hheld)
    · rw [plans_of_looked hheld] at hp
      exact Or.inr (Or.inr ((plans_of_looked hheld').mpr (by simpa using hp)))
  · rintro _ t _ (ha | hb | hp)
    · exact Or.inl ((awaits_called hheld).mpr ha)
    · exact absurd hb (not_begins_of_looked hheld)
    · rw [plans_of_looked hheld] at hp
      simp at hp
  · intro t hp _
    rw [plans_of_looked hheld'] at hp
    simp at hp
  · intro hr t hp hnone
    rw [plans_of_looked hheld'] at hp
    have hp' : x.Plans (.subscribe t) :=
      (plans_of_looked hheld).mpr (List.mem_cons_of_mem _ hp)
    exact (awaits_called hheld).mpr (h.releasedAgain hr t hp' hnone)

theorem Agrees.callSubscribe (h : x.Agrees) {s : Bytes}
    (hw : x.hub.feed.isWanted = true)
    (hheld : x.holder = some ⟨errand, some [.subscribe s], rest⟩) :
    (x.called (.subscribe s) ⟨errand, some [], rest⟩).Agrees := by
  set z := x.called (.subscribe s) ⟨errand, some [], rest⟩ with hz
  have hheld' : z.holder = some ⟨errand, some [], rest⟩ := rfl
  have hmem : ∀ t, t ∈ z.hub.feed.symbols ↔ t = s ∨ t ∈ x.hub.feed.symbols :=
    fun t => Feed.Symbols.mem_add
  refine ⟨h.proper, Feed.Symbols.nodup_add h.nodup, ?_, ?_, ?_, ?_, ?_⟩
  · intro k cs hk hcs
    cases hk
    cases hcs
    exact .nothing
  · intro t ht
    rw [hmem]
    rcases h.subscribed t ht with hin | ha | hb | hp
    · exact Or.inl ⟨Or.inr hin.1, hin.2⟩
    · exact Or.inr (Or.inl ((awaits_called hheld).mpr ha))
    · exact absurd hb (not_begins_of_looked hheld)
    · rw [plans_of_looked hheld] at hp
      exact Or.inl ⟨Or.inl (by simpa using hp), hw⟩
  · intro hr t ht hnone hin
    rcases (hmem t).mp hin with rfl | hold
    -- The last subscriber left after the look, and its call waits for the
    -- lock.
    · have hp : x.Plans (.subscribe t) :=
        (plans_of_looked hheld).mpr List.mem_cons_self
      exact Or.inl ((awaits_called hheld).mpr (h.releasedAgain hr t hp hnone))
    · rcases h.released hr t ht hnone hold with ha | hb | hp
      · exact Or.inl ((awaits_called hheld).mpr ha)
      · exact absurd hb (not_begins_of_looked hheld)
      · rw [plans_of_looked hheld] at hp
        simp at hp
  · intro t hp _
    exact absurd ((plans_of_looked hheld').mp hp) List.not_mem_nil
  · intro _ t hp _
    exact absurd ((plans_of_looked hheld').mp hp) List.not_mem_nil

theorem Agrees.callUnsubscribe (h : x.Agrees) {s : Bytes}
    (hheld : x.holder = some ⟨errand, some [.unsubscribe s], rest⟩) :
    (x.called (.unsubscribe s) ⟨errand, some [], rest⟩).Agrees := by
  set z := x.called (.unsubscribe s) ⟨errand, some [], rest⟩ with hz
  have hheld' : z.holder = some ⟨errand, some [], rest⟩ := rfl
  have hmem : ∀ t, t ∈ z.hub.feed.symbols ↔ t ≠ s ∧ t ∈ x.hub.feed.symbols :=
    fun t => Feed.Symbols.mem_remove h.nodup
  refine ⟨h.proper, Feed.Symbols.nodup_remove h.nodup, ?_, ?_, ?_, ?_, ?_⟩
  · intro k cs hk hcs
    cases hk
    cases hcs
    exact .nothing
  · intro t ht
    by_cases hts : t = s
    -- A subscriber came after the look, and its call waits for the lock.
    · subst hts
      have hp : x.Plans (.unsubscribe t) :=
        (plans_of_looked hheld).mpr List.mem_cons_self
      exact Or.inr
        (Or.inl ((awaits_called hheld).mpr (h.subscribedAgain t hp ht)))
    · rcases h.subscribed t ht with hin | ha | hb | hp
      · exact Or.inl ⟨(hmem t).mpr ⟨hts, hin.1⟩, hin.2⟩
      · exact Or.inr (Or.inl ((awaits_called hheld).mpr ha))
      · exact absurd hb (not_begins_of_looked hheld)
      · rw [plans_of_looked hheld] at hp
        simp at hp
  · intro hr t ht hnone hin
    obtain ⟨hts, hold⟩ := (hmem t).mp hin
    rcases h.released hr t ht hnone hold with ha | hb | hp
    · exact Or.inl ((awaits_called hheld).mpr ha)
    · exact absurd hb (not_begins_of_looked hheld)
    · rw [plans_of_looked hheld] at hp
      exact absurd (by simpa using hp) hts
  · intro t hp _
    exact absurd ((plans_of_looked hheld').mp hp) List.not_mem_nil
  · intro _ t hp _
    exact absurd ((plans_of_looked hheld').mp hp) List.not_mem_nil

theorem Agrees.call (h : x.Agrees) {c : ProviderCall} {cs : List ProviderCall}
    (hheld : x.holder = some ⟨errand, some (c :: cs), rest⟩) :
    (x.called c ⟨errand, some cs, rest⟩).Agrees := by
  cases h.left _ _ hheld rfl with
  | connect s => exact h.callConnect hheld
  | subscribe s hw => exact h.callSubscribe hw hheld
  | unsubscribe s => exact h.callUnsubscribe hheld

end Calls

/-- Changes of everything else are harmless. -/
theorem Agrees.outside (h : x.Agrees) (limiter : Limiter) (pool : Pool)
    (metrics : Metrics) (wanted stopped : Bool) (socket : Option Nat)
    (received : Nat) :
    Agrees { x with hub := { x.hub with
      limiter
      pool
      metrics
      feed := { x.hub.feed with
        isWanted := x.hub.feed.isWanted || wanted
        isStopped := stopped
        socket
        received } } } := by
  have hwanted : x.hub.feed.isWanted = true →
      (x.hub.feed.isWanted || wanted) = true := by
    intro hw
    rw [hw]
    rfl
  refine h.of_same_list rfl rfl rfl rfl hwanted ?_ (fun _ _ hj => hj)
    (fun _ _ _ hl => hl) h.subscribedAgain h.releasedAgain
  intro k cs hk hcs
  cases h.left k cs hk hcs with
  | nothing => exact .nothing
  | connect s => exact .connect s
  | subscribe s hw => exact .subscribe s (hwanted hw)
  | unsubscribe s => exact .unsubscribe s

/-- Every event keeps subscribers and feed in agreement. -/
theorem agrees_of_step (h : x.Agrees) (hstep : x.step e = some y) :
    y.Agrees := by
  cases e with
  | subscribe client symbol =>
      simp only [step] at hstep
      split at hstep
      · cases hstep
        exact h
      · cases hstep
        exact h.subscribe client _
  | unsubscribe client symbol =>
      simp only [step] at hstep
      split at hstep
      · cases hstep
        exact h
      · cases hstep
        exact h.unsubscribe client _
  | unsubscribeAll client order =>
      simp only [step] at hstep
      split at hstep
      · cases hstep
      · rename_i hperm
        cases hstep
        exact h.unsubscribeAll client
          (List.isPerm_iff.mp (by simpa using hperm))
  | lock n =>
      simp only [step] at hstep
      split at hstep
      · rename_i errand rest hfree hn
        cases hstep
        exact h.lock hfree hn
      · cases hstep
  | look =>
      simp only [step] at hstep
      split at hstep
      · rename_i errand rest hheld
        cases hstep
        exact h.look hheld
      · cases hstep
  | call =>
      simp only [step] at hstep
      split at hstep
      · rename_i errand c cs rest hheld
        cases hstep
        exact h.call hheld
      · cases hstep
  | unlock =>
      simp only [step] at hstep
      split at hstep
      · rename_i errand rest hheld
        cases hstep
        exact h.unlock hheld
      · cases hstep
  | outside limiter pool metrics wanted stopped socket received =>
      cases hstep
      exact h.outside limiter pool metrics wanted stopped socket received

theorem agrees_start (limiter : Limiter) (configured : List Bytes)
    (releaseOnIdle : Bool) :
    (start limiter configured releaseOnIdle).Agrees := by
  have hnone :
      ∀ s, ¬(start limiter configured
        releaseOnIdle).hub.registry.hasSubscribers s = true :=
    fun _ => Bool.false_ne_true
  refine ⟨Registry.proper_empty, Feed.Symbols.nodup_ofConfigured configured,
    ?_, ?_, ?_, ?_, ?_⟩
  · intro k _ hk
    cases hk
  · exact fun s hs => absurd hs (hnone s)
  · intro _ s hs
    cases hs
  · exact fun s _ hs => absurd hs (hnone s)
  · intro _ s hp
    exact absurd hp (not_plans_of_free rfl)

theorem agrees_of_run {limiter : Limiter} {configured : List Bytes}
    {releaseOnIdle : Bool} {es : List Event}
    (h : Runs.run step (start limiter configured releaseOnIdle) es = some x) :
    x.Agrees :=
  Runs.run_invariant (fun _ _ _ hz hstep => agrees_of_step hz hstep)
    (agrees_start limiter configured releaseOnIdle) h

/-- Nothing is left to settle when no call is under way. -/
theorem Quiet.settled (h : x.Quiet) (s : Bytes) :
    ¬x.Joining s ∧ ¬x.Leaving s := by
  obtain ⟨hwaiting, hfree⟩ := h
  have hawaits : ∀ e, ¬x.Awaits e := by
    intro e he
    rw [awaits_of_free hfree, hwaiting] at he
    cases he
  constructor
  · rintro (ha | hb | hp)
    · exact hawaits _ ha
    · exact not_begins_of_free hfree hb
    · exact not_plans_of_free hfree hp
  · rintro (ha | hb | hp)
    · exact hawaits _ ha
    · exact not_begins_of_free hfree hb
    · exact not_plans_of_free hfree hp

/-- **Subscribers and provider agree.** After any interleaving of calls, when
none is under way, the feed is subscribed to every symbol that has a
subscriber, and a connection was asked for if there is one. With release on
idle it is subscribed to no other symbol that was ever subscribed. -/
theorem agreement {limiter : Limiter} {configured : List Bytes}
    {releaseOnIdle : Bool} {es : List Event}
    (hrun : Runs.run step (start limiter configured releaseOnIdle) es = some x)
    (hquiet : x.Quiet) :
    (∀ s, (∃ c, c ∈ x.hub.registry.clients s) →
      s ∈ x.hub.feed.symbols ∧ x.hub.feed.isWanted = true) ∧
    (releaseOnIdle = true → ∀ s, (∃ e ∈ es, e.Joins s) →
      (s ∈ x.hub.feed.symbols ↔ ∃ c, c ∈ x.hub.registry.clients s)) := by
  have h := agrees_of_run hrun
  have hsubscribed : ∀ s, (∃ c, c ∈ x.hub.registry.clients s) →
      s ∈ x.hub.feed.symbols ∧ x.hub.feed.isWanted = true := by
    intro s hs
    have hhas := h.proper.hasSubscribers_iff.mpr hs
    exact (h.subscribed s hhas).resolve_right (hquiet.settled s).1
  refine ⟨hsubscribed, ?_⟩
  intro hr s hs
  constructor
  · intro hin
    have hr' : x.hub.releaseOnIdle = true :=
      (releaseOnIdle_of_run hrun).trans hr
    have hjoined := joined_of_run hrun (Or.inr hs)
    by_contra hnone
    have hidle : ¬x.hub.registry.hasSubscribers s = true := fun hhas =>
      hnone (h.proper.hasSubscribers_iff.mp hhas)
    exact (hquiet.settled s).2 (h.released hr' s hjoined hidle hin)
  · exact fun hc => (hsubscribed s hc).1

/-- The first client comes and goes before its symbol is settled, the second
one comes after the look that finds nobody and before the withdrawal it leads
to. -/
def lateWithdrawal : List Event :=
  [.subscribe [1] [65], .unsubscribe [1] [65], .lock 1, .look,
    .subscribe [2] [65], .call, .unlock,
    .lock 0, .look, .call, .call, .unlock, .lock 0, .look,
    .call, .call, .unlock]

/-- The withdrawal that came too late is made good by the call of the second
client. -/
theorem agreement_after_late_withdrawal :
    ∃ x, Runs.run step (start ⟨1, 1, .empty⟩ [] true) lateWithdrawal = some x ∧
      x.Quiet ∧ (∃ e ∈ lateWithdrawal, e.Joins [65]) ∧
      x.hub.registry.clients [65] = [[2]] ∧
      ([65] ∈ x.hub.feed.symbols ∧ x.hub.feed.isWanted = true) ∧
      ([65] ∈ x.hub.feed.symbols ↔ ∃ c, c ∈ x.hub.registry.clients [65]) := by
  have hseen :
      (Runs.run step (start ⟨1, 1, .empty⟩ [] true) lateWithdrawal).map
          (fun x => (x.waiting, x.holder.isNone,
            x.hub.registry.clients [65])) =
        some ([], true, [[2]]) := rfl
  obtain ⟨x, hrun, hfields⟩ := Option.map_eq_some_iff.mp hseen
  simp only [Prod.mk.injEq, Option.isNone_iff_eq_none] at hfields
  obtain ⟨hwaiting, hfree, hclients⟩ := hfields
  have hjoins : ∃ e ∈ lateWithdrawal, e.Joins [65] :=
    ⟨.subscribe [1] [65], List.mem_cons_self, rfl, List.cons_ne_nil _ _⟩
  obtain ⟨hsubscribed, hexact⟩ := agreement hrun ⟨hwaiting, hfree⟩
  have hsome : ∃ c, c ∈ x.hub.registry.clients [65] := by
    rw [hclients]
    exact ⟨[2], List.mem_cons_self⟩
  exact ⟨x, hrun, ⟨hwaiting, hfree⟩, hjoins, hclients, hsubscribed [65] hsome,
    hexact rfl [65] hjoins⟩

end Exchange
end TickRelay
