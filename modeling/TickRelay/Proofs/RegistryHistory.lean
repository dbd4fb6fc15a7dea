import TickRelay.Proofs.HubView
import TickRelay.Proofs.RegistryView
import TickRelay.Proofs.SymbolForm
import Mathlib.Data.List.Induction

/-!
# Subscriptions and the calls that led to them

The registry keeps the subscribers of each symbol under its normal form, drops
a symbol with its last subscriber, and brings a symbol to normal form again
whenever it is asked for.

**Input.** Calls in the order in which they are made, of any clients and with
any texts as symbols.

**Algorithm.** `Call.register` is what a call does to the registry. A registry
is `Tidy` when its symbols are in normal form and not empty, none is without
subscribers, and none has one twice.

**Results.** `mem_subscribers_register` is the law of one call, `tidy_after`
and `mem_subscribers_after` carry it along all calls.
`subscriptions_by_history`: the subscribers are a function of the history, the
last call that concerns a client and a symbol decides.
-/

namespace TickRelay
namespace Registry

/-- A call that changes subscriptions. -/
inductive Call where
  | subscribe (client symbol : Bytes)
  | unsubscribe (client symbol : Bytes)
  | unsubscribeAll (client : Bytes)
  deriving DecidableEq

namespace Call

/-- The client that makes the call. -/
def client : Call → Bytes
  | subscribe c _ | unsubscribe c _ | unsubscribeAll c => c

def isSubscribe : Call → Bool
  | subscribe _ _ => true
  | unsubscribe _ _ | unsubscribeAll _ => false

/-- Whether a call is one of a client and about a symbol: about all symbols, or
about one with the same normal form. -/
def concerns (c s : Bytes) : Call → Bool
  | subscribe d t | unsubscribe d t =>
      d = c && Symbol.normalize t = Symbol.normalize s
  | unsubscribeAll d => d = c

/-- What a call does to the subscribers. -/
def register (r : Registry) : Call → Registry
  | subscribe c s =>
    if Symbol.normalize s = [] then r else (r.join c (Symbol.normalize s)).1
  | unsubscribe c s =>
    if Symbol.normalize s = [] then r else (r.leave c (Symbol.normalize s)).1
  | unsubscribeAll c => (r.leaveAll c).1

/-- The last call that concerns a client and a symbol. -/
def last? (c s : Bytes) (calls : List Call) : Option Call :=
  (calls.filter (concerns c s)).getLast?

theorem last?_concat (c s : Bytes) (calls : List Call) (call : Call) :
    last? c s (calls ++ [call]) =
      if call.concerns c s then some call else last? c s calls := by
  rw [last?, List.filter_append]
  by_cases h : call.concerns c s = true
  · simp [h]
  · simp [h, last?]

theorem concerns_of_client_ne {call : Call} {c : Bytes} (h : c ≠ call.client)
    (s : Bytes) : call.concerns c s = false := by
  cases call with
  | subscribe d t => simp [concerns, Ne.symm (show c ≠ d from h)]
  | unsubscribe d t => simp [concerns, Ne.symm (show c ≠ d from h)]
  | unsubscribeAll d => simpa [concerns] using Ne.symm (show c ≠ d from h)

end Call

variable {r : Registry} {client symbol : Bytes}

section Tidy

/-- What every registry is like that calls have led to. -/
structure Tidy (r : Registry) : Prop where
  proper : r.Proper
  distinct : r.Distinct
  normal : ∀ s, r.hasSubscribers s = true → s ≠ [] ∧ Symbol.normalize s = s

theorem tidy_empty : ({} : Registry).Tidy :=
  ⟨proper_empty, distinct_empty, fun _ h => by cases h⟩

namespace Tidy

theorem join (h : r.Tidy) (hne : symbol ≠ [])
    (hnormal : Symbol.normalize symbol = symbol) :
    (r.join client symbol).1.Tidy where
  proper := h.proper.join
  distinct := h.distinct.join
  normal s hs := by
    rcases hasSubscribers_join.mp hs with rfl | hbefore
    · exact ⟨hne, hnormal⟩
    · exact h.normal s hbefore

/-- No new symbol comes with clients that leave. -/
theorem shrink {r' : Registry} (h : r.Tidy) (hproper : r'.Proper)
    (hdistinct : r'.Distinct)
    (hsub : ∀ s c, c ∈ r'.clients s → c ∈ r.clients s) : r'.Tidy where
  proper := hproper
  distinct := hdistinct
  normal s hs :=
    h.normal s (h.proper.hasSubscribers_of_subset hproper (hsub s) hs)

theorem leave (h : r.Tidy) : (r.leave client symbol).1.Tidy :=
  h.shrink h.proper.leave h.distinct.leave fun _ _ hc =>
    (mem_clients_leave.mp hc).1

theorem leaveAll (h : r.Tidy) : (r.leaveAll client).1.Tidy :=
  h.shrink h.proper.leaveAll h.distinct.leaveAll fun _ _ hc =>
    (mem_clients_leaveAll.mp hc).1

theorem register (h : r.Tidy) (call : Call) : (call.register r).Tidy := by
  cases call with
  | subscribe c s =>
      by_cases hs : Symbol.normalize s = []
      · simpa [Call.register, hs] using h
      · simpa [Call.register, hs] using h.join hs
          (Symbol.normalize_normalize s)
  | unsubscribe c s =>
      by_cases hs : Symbol.normalize s = []
      · simpa [Call.register, hs] using h
      · simpa [Call.register, hs] using h.leave
  | unsubscribeAll c => exact h.leaveAll

/-- A subscriber of a symbol stands under the normal form of the symbol. -/
theorem listed (h : r.Tidy) {c s : Bytes} (hc : c ∈ r.clients s) :
    s ≠ [] ∧ Symbol.normalize s = s :=
  h.normal s (h.proper.hasSubscribers_iff.mpr ⟨c, hc⟩)

theorem not_mem_subscribers (h : r.Tidy) {c s : Bytes}
    (hs : Symbol.normalize s = []) : c ∉ r.subscribers s := by
  intro hc
  rw [subscribers, hs] at hc
  exact (h.listed hc).1 rfl

theorem subscribers_eq (h : r.Tidy) {c s : Bytes} (hc : c ∈ r.clients s) :
    r.subscribers s = r.clients s := by
  rw [subscribers, (h.listed hc).2]

theorem mem_symbols (h : r.Tidy) {s : Bytes} :
    s ∈ r.symbols ↔ Symbol.normalize s = s ∧ ∃ c, c ∈ r.subscribers s := by
  have hkeys : s ∈ r.symbols ↔ r.hasSubscribers s = true := by
    rw [hasSubscribers_iff_get?]
    exact Table.mem_keys
  rw [hkeys, h.proper.hasSubscribers_iff]
  constructor
  · rintro ⟨c, hc⟩
    exact ⟨(h.listed hc).2, c, h.subscribers_eq hc ▸ hc⟩
  · rintro ⟨hnormal, c, hc⟩
    rw [subscribers, hnormal] at hc
    exact ⟨c, hc⟩

theorem mem_symbolsOf_iff (h : r.Tidy) {s : Bytes} :
    s ∈ r.symbolsOf client ↔ s ∈ r.symbols ∧ client ∈ r.subscribers s := by
  rw [mem_symbolsOf, h.mem_symbols]
  constructor
  · intro hc
    have hs : client ∈ r.subscribers s := h.subscribers_eq hc ▸ hc
    exact ⟨⟨(h.listed hc).2, client, hs⟩, hs⟩
  · rintro ⟨⟨hnormal, -⟩, hc⟩
    rwa [subscribers, hnormal] at hc

end Tidy

theorem nodup_symbolsOf (r : Registry) (client : Bytes) :
    (r.symbolsOf client).Nodup :=
  r.subs.distinct.sublist (List.filter_sublist.map Prod.fst)

end Tidy

section Step

variable {c d s t : Bytes}

theorem mem_subscribers_subscribe (hs : Symbol.normalize s ≠ []) :
    c ∈ (Call.register r (.subscribe d t)).subscribers s ↔
      (Symbol.normalize t = Symbol.normalize s ∧ d = c) ∨
      c ∈ r.subscribers s := by
  -- A call without a symbol cannot be about this one, which is not empty.
  by_cases ht : Symbol.normalize t = []
  · have hne : Symbol.normalize t ≠ Symbol.normalize s :=
      fun he => hs (he ▸ ht)
    rw [Call.register, if_pos ht]
    exact (or_iff_right fun hboth => hne hboth.1).symm
  · rw [Call.register, if_neg ht, subscribers, mem_clients_join,
      eq_comm, eq_comm (a := c)]
    rfl

theorem mem_subscribers_unsubscribe (hs : Symbol.normalize s ≠ []) :
    c ∈ (Call.register r (.unsubscribe d t)).subscribers s ↔
      ¬(Symbol.normalize t = Symbol.normalize s ∧ d = c) ∧
      c ∈ r.subscribers s := by
  by_cases ht : Symbol.normalize t = []
  · have hne : Symbol.normalize t ≠ Symbol.normalize s :=
      fun he => hs (he ▸ ht)
    rw [Call.register, if_pos ht]
    exact (and_iff_right fun hboth => hne hboth.1).symm
  · rw [Call.register, if_neg ht, subscribers, mem_clients_leave, eq_comm,
      eq_comm (a := c), and_comm]
    rfl

/-- A call that concerns a client and a symbol decides, and any other leaves
things as they are. -/
theorem mem_subscribers_register (hs : Symbol.normalize s ≠ []) (call : Call) :
    c ∈ (call.register r).subscribers s ↔
      if call.concerns c s then call.isSubscribe = true
      else c ∈ r.subscribers s := by
  cases call with
  | subscribe d t =>
      rw [mem_subscribers_subscribe hs]
      by_cases h : Symbol.normalize t = Symbol.normalize s ∧ d = c
      · simp [Call.concerns, Call.isSubscribe, h]
      · simp [Call.concerns, h, and_comm (a := d = c)]
  | unsubscribe d t =>
      rw [mem_subscribers_unsubscribe hs]
      by_cases h : Symbol.normalize t = Symbol.normalize s ∧ d = c
      · simp [Call.concerns, Call.isSubscribe, h]
      · simp [Call.concerns, h, and_comm (a := d = c)]
  | unsubscribeAll d =>
      rw [Call.register, subscribers, mem_clients_leaveAll]
      by_cases h : d = c
      · simp [Call.concerns, Call.isSubscribe, h]
      · simp [Call.concerns, h, Ne.symm h, subscribers]

/-- No call changes the subscriptions of a client other than its own. -/
theorem Tidy.mem_subscribers_of_client_ne (h : r.Tidy) {call : Call}
    (hc : c ≠ call.client) (s : Bytes) :
    c ∈ (call.register r).subscribers s ↔ c ∈ r.subscribers s := by
  by_cases hs : Symbol.normalize s = []
  · exact iff_of_false ((h.register call).not_mem_subscribers hs)
      (h.not_mem_subscribers hs)
  · rw [mem_subscribers_register hs, Call.concerns_of_client_ne hc s]
    simp

/-- The order in which the symbols of a client are visited makes no
difference. -/
theorem mem_subscribers_leaveEach {order : List Bytes}
    (horder : order.Perm (r.symbolsOf client)) :
    c ∈ (r.leaveEach client order).subscribers s ↔
      c ∈ (r.leaveAll client).1.subscribers s := by
  rw [subscribers, subscribers, leaveAll_fst, mem_clients_leaveEach,
    mem_clients_leaveEach, horder.mem_iff]

end Step

end Registry

namespace Hub

open Registry (Call)

/-- Makes a call. -/
def carry (h : Hub) : Call → Hub
  | .subscribe client symbol => (h.subscribe client symbol).1
  | .unsubscribe client symbol => (h.unsubscribe client symbol).1
  | .unsubscribeAll client => (h.unsubscribeAll client).1

/-- The hub after some calls. -/
def after (h : Hub) (calls : List Call) : Hub := calls.foldl carry h

/-- The same hub without subscriptions. -/
def unsubscribed (h : Hub) : Hub := { h with registry := {} }

theorem after_concat (h : Hub) (calls : List Call) (call : Call) :
    h.after (calls ++ [call]) = (h.after calls).carry call :=
  List.foldl_concat ..

theorem registry_carry (h : Hub) (call : Call) :
    (h.carry call).registry = call.register h.registry := by
  cases call with
  | subscribe client symbol =>
      obtain ⟨feed, hframe⟩ := h.subscribe_frame client symbol
      rw [carry, hframe, Call.register]
      split
      · rfl
      · rfl
  | unsubscribe client symbol =>
      obtain ⟨feed, hframe⟩ := h.unsubscribe_frame client symbol
      rw [carry, hframe, Call.register]
      split
      · rfl
      · rfl
  | unsubscribeAll client =>
      obtain ⟨feed, hframe⟩ := h.unsubscribeAll_frame client
      rw [carry, hframe]
      rfl

theorem tidy_after (h : Hub) (calls : List Call) :
    (h.unsubscribed.after calls).registry.Tidy := by
  induction calls using List.reverseRecOn with
  | nil => exact Registry.tidy_empty
  | append_singleton calls call ih =>
      rw [after_concat, registry_carry]
      exact ih.register call

theorem mem_subscribers_after (h : Hub) (calls : List Call) {c s : Bytes}
    (hs : Symbol.normalize s ≠ []) :
    c ∈ (h.unsubscribed.after calls).registry.subscribers s ↔
      ∃ call, Call.last? c s calls = some call ∧ call.isSubscribe = true := by
  induction calls using List.reverseRecOn with
  | nil =>
      refine iff_of_false List.not_mem_nil ?_
      rintro ⟨call, hlast, -⟩
      cases hlast
  | append_singleton calls call ih =>
      rw [after_concat, registry_carry, Registry.mem_subscribers_register hs,
        Call.last?_concat]
      by_cases hcall : call.concerns c s = true
      · simp [hcall]
      · simpa [hcall] using ih

/-- What a hub shows of its subscriptions, against the calls made since it had
none. -/
structure Reflects (h : Hub) (calls : List Call) : Prop where
  /-- Of the calls that concern a client and a symbol the last one decides. -/
  subscriber : ∀ client symbol, client ∈ h.registry.subscribers symbol ↔
    Symbol.normalize symbol ≠ [] ∧
      ∃ call, Call.last? client symbol calls = some call ∧
      call.isSubscribe = true
  symbols_once : h.registry.symbols.Nodup
  /-- The symbols are those with subscribers, each in normal form. -/
  symbol : ∀ s, s ∈ h.registry.symbols ↔
    Symbol.normalize s = s ∧ ∃ client, client ∈ h.registry.subscribers s
  /-- A client that withdraws everything is told its symbols, each once. -/
  withdrawn_once : ∀ client, (h.unsubscribeAll client).2.1.Nodup
  withdrawn : ∀ client s, s ∈ (h.unsubscribeAll client).2.1 ↔
    s ∈ h.registry.symbols ∧ client ∈ h.registry.subscribers s
  /-- In whatever order the symbols are visited, the same subscribers are
  left. -/
  unordered : ∀ client order, order.Perm (h.unsubscribeAll client).2.1 → ∀ c s,
    (c ∈ (h.registry.leaveEach client order).subscribers s ↔
      c ∈ (h.unsubscribeAll client).1.registry.subscribers s)
  /-- A symbol with an empty normal form is refused, and nothing changes. -/
  refused : ∀ client symbol, Symbol.normalize symbol = [] →
    h.subscribe client symbol = (h, .error Registry.symbolRequired) ∧
      h.unsubscribe client symbol = (h, .error Registry.symbolRequired)
  /-- Any other symbol is accepted. -/
  accepted : ∀ client symbol, Symbol.normalize symbol ≠ [] →
    (∃ made, (h.subscribe client symbol).2 = .ok made) ∧
      ∃ made, (h.unsubscribe client symbol).2 = .ok made
  /-- No call changes the subscriptions of another client. -/
  others : ∀ call client symbol, client ≠ call.client →
    (client ∈ (h.carry call).registry.subscribers symbol ↔
      client ∈ h.registry.subscribers symbol)

theorem subscribe_refused (h : Hub) (client : Bytes) {symbol : Bytes}
    (hs : Symbol.normalize symbol = []) :
    h.subscribe client symbol = (h, .error Registry.symbolRequired) ∧
      h.unsubscribe client symbol = (h, .error Registry.symbolRequired) := by
  simp [subscribe, unsubscribe, hs]

theorem subscribe_accepted (h : Hub) (client : Bytes) {symbol : Bytes}
    (hs : Symbol.normalize symbol ≠ []) :
    (∃ made, (h.subscribe client symbol).2 = .ok made) ∧
      ∃ made, (h.unsubscribe client symbol).2 = .ok made := by
  constructor
  · rw [subscribe, if_neg hs]
    split
    · exact ⟨_, rfl⟩
    · exact ⟨_, rfl⟩
  · rw [unsubscribe, if_neg hs]
    split
    · exact ⟨_, rfl⟩
    · exact ⟨_, rfl⟩

/-- The subscriptions of a hub are a function of the calls made, whatever
clients and symbols they name. -/
theorem subscriptions_by_history (h : Hub) (calls : List Call) :
    (h.unsubscribed.after calls).Reflects calls := by
  have htidy := h.tidy_after calls
  refine ⟨?_, ?_, ?_, ?_, ?_, ?_, ?_, ?_, ?_⟩
  · intro client symbol
    by_cases hs : Symbol.normalize symbol = []
    · exact iff_of_false (htidy.not_mem_subscribers hs) fun hboth => hboth.1 hs
    · rw [mem_subscribers_after h calls hs]
      exact (and_iff_right hs).symm
  · exact Table.distinct _
  · exact fun s => htidy.mem_symbols
  · exact fun client => Registry.nodup_symbolsOf _ client
  · exact fun client s => htidy.mem_symbolsOf_iff
  · intro client order horder c s
    obtain ⟨feed, hframe⟩ :=
      (h.unsubscribed.after calls).unsubscribeAll_frame client
    rw [hframe]
    exact Registry.mem_subscribers_leaveEach horder
  · exact fun client symbol hs => subscribe_refused _ client hs
  · exact fun client symbol hs => subscribe_accepted _ client hs
  · intro call client symbol hne
    rw [registry_carry]
    exact htidy.mem_subscribers_of_client_ne hne symbol

end Hub
end TickRelay
