import TickRelay.Registry
import TickRelay.Proofs.TableView
import Mathlib.Data.List.Nodup
import Mathlib.Tactic.Tauto

/-!
# The registry as a relation between symbols and clients

**Results.** `mem_clients_join`, `mem_clients_leave` and `mem_clients_leaveAll`
say what the three changes do to the subscribers of every symbol. `join_isNew`,
`leave_isIdle` and `mem_idle_iff` say that a change tells of exactly those
symbols that gain their first subscriber or lose their last one. A registry is
`Proper` when no symbol has an entry without subscribers, and `Distinct` when
no symbol has a subscriber twice; all changes keep it so.
-/

namespace TickRelay
namespace Registry

variable {r : Registry} {client symbol : Bytes}

/-- A symbol without subscribers has no entry. -/
def Proper (r : Registry) : Prop := ∀ s, r.subs.get? s ≠ some []

theorem proper_empty : ({} : Registry).Proper := by
  intro s h
  cases h

theorem clients_eq_of_get? {s : Bytes} {cs : List Bytes}
    (h : r.subs.get? s = some cs) : r.clients s = cs := by
  simp [clients, h]

theorem hasSubscribers_iff_get? {s : Bytes} :
    r.hasSubscribers s = true ↔ ∃ cs, r.subs.get? s = some cs := by
  simp [hasSubscribers, Table.contains, Option.isSome_iff_exists]

/-- In a proper registry an entry stands for a subscriber. -/
theorem Proper.hasSubscribers_iff (h : r.Proper) {s : Bytes} :
    r.hasSubscribers s = true ↔ ∃ c, c ∈ r.clients s := by
  rw [hasSubscribers_iff_get?]
  constructor
  · rintro ⟨cs, hcs⟩
    have hne : cs ≠ [] := by
      rintro rfl
      exact h s hcs
    obtain ⟨c, hc⟩ := List.exists_mem_of_ne_nil cs hne
    exact ⟨c, by rwa [clients_eq_of_get? hcs]⟩
  · rintro ⟨c, hc⟩
    cases hs : r.subs.get? s with
    | none => simp [clients, hs] at hc
    | some cs => exact ⟨cs, rfl⟩

/-- Where no client is new, no symbol gains subscribers. -/
theorem Proper.hasSubscribers_of_subset {r' : Registry} (h : r.Proper)
    (h' : r'.Proper) {s : Bytes} (hsub : ∀ c ∈ r'.clients s, c ∈ r.clients s)
    (hs : r'.hasSubscribers s = true) : r.hasSubscribers s = true := by
  obtain ⟨c, hc⟩ := h'.hasSubscribers_iff.mp hs
  exact h.hasSubscribers_iff.mpr ⟨c, hsub c hc⟩

section Join

/-- The entry of a symbol after a client joined it. -/
def entryWith (r : Registry) (client symbol : Bytes) : List Bytes :=
  if (r.clients symbol).contains client then r.clients symbol
  else r.clients symbol ++ [client]

theorem join_subs :
    (r.join client symbol).1.subs =
      r.subs.set symbol (r.entryWith client symbol) := by
  unfold join entryWith
  cases hs : r.subs.get? symbol with
  | none => simp [clients, hs]
  | some cs => simp [clients_eq_of_get? hs]

theorem mem_entryWith {c : Bytes} :
    c ∈ r.entryWith client symbol ↔ c = client ∨ c ∈ r.clients symbol := by
  unfold entryWith
  split
  · rename_i h
    have hm : client ∈ r.clients symbol := by simpa using h
    constructor
    · exact Or.inr
    · rintro (rfl | hc)
      · exact hm
      · exact hc
  · simp [or_comm]

/-- Joining adds the client to the symbol and changes nothing else. -/
theorem mem_clients_join {c s : Bytes} :
    c ∈ (r.join client symbol).1.clients s ↔ (s = symbol ∧ c = client) ∨
    c ∈ r.clients s := by
  have hget := Table.get?_set r.subs symbol s (r.entryWith client symbol)
  rw [clients, join_subs, hget]
  by_cases hs : s = symbol
  · subst hs
    simpa using mem_entryWith
  · simp [hs, clients]

/-- A symbol is new when it had no subscribers. -/
theorem join_isNew : (r.join client symbol).2 = !r.hasSubscribers symbol := by
  unfold join hasSubscribers Table.contains
  cases r.subs.get? symbol <;> rfl

theorem hasSubscribers_join {s : Bytes} :
    (r.join client symbol).1.hasSubscribers s = true ↔ s = symbol ∨
    r.hasSubscribers s = true := by
  rw [hasSubscribers, Table.contains, join_subs, Table.get?_set]
  by_cases hs : s = symbol
  · simp [hs]
  · simp [hs, hasSubscribers, Table.contains]

theorem Proper.join (h : r.Proper) : (r.join client symbol).1.Proper := by
  intro s hs
  rw [join_subs, Table.get?_set] at hs
  by_cases he : s = symbol
  · rw [if_pos he] at hs
    have hm : client ∈ r.entryWith client symbol :=
      mem_entryWith.mpr (Or.inl rfl)
    rw [Option.some.inj hs] at hm
    cases hm
  · rw [if_neg he] at hs
    exact h s hs

end Join

section Leave

/-- The subscribers of a symbol other than the client. -/
def others (r : Registry) (client symbol : Bytes) : List Bytes :=
  (r.clients symbol).filter (· ≠ client)

/-- The three ways in which a client leaves a symbol: it was no subscriber, it
was the last one, or others stay. -/
theorem leave_cases (r : Registry) (client symbol : Bytes) :
    (client ∉ r.clients symbol ∧ r.leave client symbol = (r, false)) ∨
    (r.hasSubscribers symbol = true ∧ r.others client symbol = [] ∧
      r.leave client symbol = (⟨r.subs.erase symbol⟩, true)) ∨
    (r.hasSubscribers symbol = true ∧ r.others client symbol ≠ [] ∧
      r.leave client symbol =
        (⟨r.subs.set symbol (r.others client symbol)⟩, false)) := by
  unfold leave
  cases hget : r.subs.get? symbol with
  | none => exact Or.inl ⟨by simp [clients, hget], rfl⟩
  | some cs =>
      have hcs : r.clients symbol = cs := clients_eq_of_get? hget
      have hhas : r.hasSubscribers symbol = true :=
        hasSubscribers_iff_get?.mpr ⟨cs, hget⟩
      by_cases hc : client ∈ cs
      · by_cases hrest : cs.filter (· ≠ client) = []
        · refine Or.inr (Or.inl ⟨hhas, by rwa [others, hcs], ?_⟩)
          simp only [List.contains_iff_mem.mpr hc, hrest]
          rfl
        · refine Or.inr (Or.inr ⟨hhas, by rwa [others, hcs], ?_⟩)
          have hempty : (cs.filter (· ≠ client)).isEmpty = false := by
            rwa [List.isEmpty_eq_false_iff]
          simp only [List.contains_iff_mem.mpr hc, hempty, others, hcs]
          rfl
      · exact Or.inl ⟨hcs ▸ hc, by simp [hc]⟩

theorem others_of_notMem (h : client ∉ r.clients symbol) :
    r.others client symbol = r.clients symbol := by
  rw [others, List.filter_eq_self]
  intro c hc
  have hne : c ≠ client := by
    rintro rfl
    exact h hc
  simpa using hne

/-- Leaving takes the client off the symbol and changes nothing else. -/
theorem clients_leave {s : Bytes} :
    (r.leave client symbol).1.clients s =
      if s = symbol then r.others client symbol else r.clients s := by
  rcases leave_cases r client symbol with ⟨hc, he⟩ |
    ⟨_, hnone, he⟩ | ⟨_, _, he⟩
  · rw [he, others_of_notMem hc]
    split
    · rename_i hs
      rw [hs]
    · rfl
  · rw [he, hnone, clients, Table.get?_erase]
    split
    · rfl
    · rfl
  · rw [he, clients, Table.get?_set]
    split
    · rfl
    · rfl

theorem mem_clients_leave {c s : Bytes} :
    c ∈ (r.leave client symbol).1.clients s ↔ c ∈ r.clients s ∧
    ¬(s = symbol ∧ c = client) := by
  rw [clients_leave]
  by_cases hs : s = symbol
  · simp [hs, others]
  · simp [hs]

theorem Proper.leave (h : r.Proper) : (r.leave client symbol).1.Proper := by
  intro s hs
  rcases leave_cases r client symbol with ⟨_, he⟩ | ⟨_, _, he⟩ | ⟨_, hne, he⟩
  · rw [he] at hs
    exact h s hs
  · rw [he, Table.get?_erase] at hs
    split at hs
    · cases hs
    · exact h s hs
  · rw [he, Table.get?_set] at hs
    split at hs
    · exact hne (Option.some.inj hs)
    · exact h s hs

/-- A symbol becomes idle when it loses its last subscriber. -/
theorem leave_isIdle {s : Bytes} :
    s = symbol ∧ (r.leave client symbol).2 = true ↔
      r.hasSubscribers s = true ∧
      ¬(r.leave client symbol).1.hasSubscribers s = true := by
  rcases leave_cases r client symbol with ⟨_, he⟩ |
    ⟨hhas, _, he⟩ | ⟨hhas, _, he⟩
  · simp [he]
  · rw [he, hasSubscribers, hasSubscribers, Table.contains, Table.contains,
      Table.get?_erase]
    by_cases hs : s = symbol
    · subst hs
      simpa [hasSubscribers, Table.contains] using hhas
    · rw [if_neg hs]
      exact ⟨fun h => absurd h.1 hs, fun h => absurd h.1 h.2⟩
  · rw [he, hasSubscribers, hasSubscribers, Table.contains, Table.contains,
      Table.get?_set]
    by_cases hs : s = symbol
    · simp [hs]
    · rw [if_neg hs]
      exact ⟨fun h => absurd h.1 hs, fun h => absurd h.1 h.2⟩

end Leave

section LeaveAll

/-- The registry after a client left symbol after symbol. -/
def leaveEach (r : Registry) (client : Bytes) (ss : List Bytes) : Registry :=
  ss.foldl (fun r s => (r.leave client s).1) r

theorem mem_clients_leaveEach {c s : Bytes} (ss : List Bytes) :
    c ∈ (r.leaveEach client ss).clients s ↔ c ∈ r.clients s ∧
    ¬(s ∈ ss ∧ c = client) := by
  induction ss generalizing r with
  | nil => simp [leaveEach]
  | cons symbol ss ih =>
      have hrest : c ∈ (r.leaveEach client (symbol :: ss)).clients s ↔
          c ∈ (r.leave client symbol).1.clients s ∧
          ¬(s ∈ ss ∧ c = client) := ih
      rw [hrest, mem_clients_leave, List.mem_cons]
      tauto

theorem Proper.leaveEach (h : r.Proper) (ss : List Bytes) :
    (r.leaveEach client ss).Proper := by
  induction ss generalizing r with
  | nil => exact h
  | cons symbol ss ih => exact ih h.leave

theorem mem_symbolsOf {s : Bytes} :
    s ∈ r.symbolsOf client ↔ client ∈ r.clients s := by
  unfold symbolsOf
  constructor
  · intro h
    obtain ⟨⟨k, cs⟩, he, rfl⟩ := List.mem_map.mp h
    obtain ⟨hm, hc⟩ := List.mem_filter.mp he
    rw [clients_eq_of_get? ((Table.mem_entries_iff _ _ _).mp hm)]
    exact List.contains_iff_mem.mp hc
  · intro h
    cases hget : r.subs.get? s with
    | none => simp [clients, hget] at h
    | some cs =>
        rw [clients_eq_of_get? hget] at h
        refine List.mem_map.mpr ⟨(s, cs), ?_, rfl⟩
        exact List.mem_filter.mpr
          ⟨(Table.mem_entries_iff _ _ _).mpr hget, List.contains_iff_mem.mpr h⟩

theorem leaveAll_fst :
    (r.leaveAll client).1 = r.leaveEach client (r.symbolsOf client) := rfl

/-- Leaving all symbols takes the client off everywhere and changes nothing
else. -/
theorem mem_clients_leaveAll {c s : Bytes} :
    c ∈ (r.leaveAll client).1.clients s ↔ c ∈ r.clients s ∧ c ≠ client := by
  rw [leaveAll_fst, mem_clients_leaveEach, mem_symbolsOf]
  constructor
  · rintro ⟨hc, hn⟩
    refine ⟨hc, ?_⟩
    rintro rfl
    exact hn ⟨hc, rfl⟩
  · rintro ⟨hc, hne⟩
    exact ⟨hc, fun h => hne h.2⟩

theorem Proper.leaveAll (h : r.Proper) : (r.leaveAll client).1.Proper :=
  h.leaveEach _

/-- The symbols told to be idle are those that lost their last subscriber. -/
theorem Proper.mem_idle_iff (h : r.Proper) {s : Bytes} :
    s ∈ (r.leaveAll client).2.2 ↔
      r.hasSubscribers s = true ∧
      ¬(r.leaveAll client).1.hasSubscribers s = true := by
  have hidle : s ∈ (r.leaveAll client).2.2 ↔
      client ∈ r.clients s ∧ ∀ c ∈ r.clients s, c = client := by
    simp [Registry.leaveAll, mem_symbolsOf]
  rw [hidle, h.hasSubscribers_iff, h.leaveAll.hasSubscribers_iff]
  simp only [mem_clients_leaveAll, not_exists, not_and, not_not]
  constructor
  · rintro ⟨hc, hall⟩
    exact ⟨⟨client, hc⟩, hall⟩
  · rintro ⟨⟨c, hc⟩, hall⟩
    have he := hall c hc
    exact ⟨he ▸ hc, hall⟩

end LeaveAll

section Distinct

/-- No client is told of a tick twice. -/
def Distinct (r : Registry) : Prop := ∀ s, (r.clients s).Nodup

theorem distinct_empty : ({} : Registry).Distinct :=
  fun _ => List.nodup_nil

theorem Distinct.entryWith (h : r.Distinct) :
    (r.entryWith client symbol).Nodup := by
  unfold Registry.entryWith
  split
  · exact h symbol
  · rename_i hc
    have hnew : client ∉ r.clients symbol := by simpa using hc
    rw [List.nodup_append]
    refine ⟨h symbol, List.nodup_singleton client, ?_⟩
    rintro a ha b hb rfl
    exact hnew (List.mem_singleton.mp hb ▸ ha)

theorem Distinct.join (h : r.Distinct) :
    (r.join client symbol).1.Distinct := by
  intro s
  rw [clients, join_subs, Table.get?_set]
  split
  · exact h.entryWith
  · exact h s

theorem Distinct.leave (h : r.Distinct) :
    (r.leave client symbol).1.Distinct := by
  intro s
  rw [clients_leave]
  split
  · exact (h symbol).filter _
  · exact h s

theorem Distinct.leaveAll (h : r.Distinct) :
    (r.leaveAll client).1.Distinct := by
  rw [leaveAll_fst]
  generalize r.symbolsOf client = ss
  induction ss generalizing r with
  | nil => exact h
  | cons symbol ss ih => exact ih h.leave

end Distinct

end Registry
end TickRelay
