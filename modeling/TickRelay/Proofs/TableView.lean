import TickRelay.Table

/-!
# Entries of a table and look-ups

**Results.** A table holds a key at most once, so its entries are exactly what
look-ups find: `mem_entries_iff`. So `get?_filter` and `get?_map`: what is
found among the entries that pass a test, and when all values change.
`perm_values_erase`: taking a key out leaves all values but the one found under
it, and `erase_eq_filter`: it is a test of the entries.
-/

namespace TickRelay
namespace Table

variable {α β : Type}

theorem lookup_of_mem {l : List (Bytes × α)} (hl : (l.map Prod.fst).Nodup)
    {key : Bytes} {v : α} (h : (key, v) ∈ l) : l.lookup key = some v := by
  induction l with
  | nil => cases h
  | cons e l ih =>
      obtain ⟨k, w⟩ := e
      obtain ⟨hk, hl⟩ := List.nodup_cons.mp hl
      rcases List.mem_cons.mp h with he | ht
      · cases he
        simp
      · have hne : key ≠ k := by
          rintro rfl
          exact hk (List.mem_map.mpr ⟨(key, v), ht, rfl⟩)
        rw [List.lookup_cons, beq_false_of_ne hne]
        exact ih hl ht

theorem mem_of_lookup {l : List (Bytes × α)} {key : Bytes} {v : α}
    (h : l.lookup key = some v) : (key, v) ∈ l := by
  induction l with
  | nil => cases h
  | cons e l ih =>
      obtain ⟨k, w⟩ := e
      by_cases hk : key = k
      · subst hk
        simp only [List.lookup_cons_self, Option.some.injEq] at h
        subst h
        exact List.mem_cons_self
      · rw [List.lookup_cons, beq_false_of_ne hk] at h
        exact List.mem_cons_of_mem _ (ih h)

/-- The entries of a table are what is found under its keys. -/
theorem mem_entries_iff (t : Table α) (key : Bytes) (v : α) :
    (key, v) ∈ t.entries ↔ t.get? key = some v :=
  ⟨lookup_of_mem t.distinct, mem_of_lookup⟩

theorem get?_filter (t : Table α) (p : Bytes → α → Bool) (key : Bytes) :
    (t.filter p).get? key = (t.get? key).filter (p key) := by
  apply Option.ext
  intro v
  rw [← mem_entries_iff, Option.filter_eq_some_iff, ← mem_entries_iff]
  exact List.mem_filter

theorem get?_map (t : Table α) (f : α → β) (key : Bytes) :
    (t.map f).get? key = (t.get? key).map f := by
  apply Option.ext
  intro w
  rw [← mem_entries_iff, Option.map_eq_some_iff]
  constructor
  · intro h
    obtain ⟨⟨k, v⟩, hmem, he⟩ := List.mem_map.mp h
    cases he
    exact ⟨v, (mem_entries_iff t k v).mp hmem, rfl⟩
  · rintro ⟨v, hv, rfl⟩
    exact List.mem_map.mpr ⟨(key, v), (mem_entries_iff t key v).mpr hv, rfl⟩

theorem mem_keys {t : Table α} {key : Bytes} :
    key ∈ t.keys ↔ ∃ v, t.get? key = some v := by
  rw [keys, List.mem_map]
  constructor
  · rintro ⟨⟨k, v⟩, hmem, rfl⟩
    exact ⟨v, (mem_entries_iff t k v).mp hmem⟩
  · rintro ⟨v, hv⟩
    exact ⟨(key, v), (mem_entries_iff t key v).mpr hv, rfl⟩

theorem perm_sortedKeys (t : Table α) : t.sortedKeys.Perm t.keys :=
  List.mergeSort_perm t.keys Bytes.le

theorem perm_values_filter {l : List (Bytes × α)} (hl : (l.map Prod.fst).Nodup)
    (key : Bytes) :
    ((l.lookup key).toList ++ (l.filter fun e => e.1 != key).map Prod.snd).Perm
        (l.map Prod.snd) := by
  induction l with
  | nil => exact List.Perm.refl _
  | cons e l ih =>
      obtain ⟨k, v⟩ := e
      obtain ⟨hk, hl⟩ := List.nodup_cons.mp hl
      have hrest := ih hl
      by_cases he : k = key
      · subst he
        have hnone : l.lookup k = none := by
          cases hv : l.lookup k with
          | none => rfl
          | some w =>
              exact absurd
                (List.mem_map.mpr ⟨(k, w), mem_of_lookup hv, rfl⟩) hk
        rw [hnone] at hrest
        simpa [List.lookup_cons] using hrest
      · have hkey : (key == k) = false := beq_false_of_ne (Ne.symm he)
        have hkept : (k != key) = true := by simp [he]
        simp only [List.filter, hkept, List.lookup_cons, hkey, List.map_cons]
        exact List.perm_middle.trans (hrest.cons v)

theorem perm_values_erase (t : Table α) (key : Bytes) :
    ((t.get? key).toList ++ (t.erase key).entries.map Prod.snd).Perm
        (t.entries.map Prod.snd) :=
  perm_values_filter t.distinct key

theorem entries_inj {t u : Table α} (h : t.entries = u.entries) : t = u := by
  cases t
  cases u
  cases h
  rfl

theorem size_erase {t : Table α} {key : Bytes} {v : α}
    (h : t.get? key = some v) : (t.erase key).size + 1 = t.size := by
  have hperm := (perm_values_erase t key).length_eq
  rw [h, List.length_append, List.length_map, List.length_map] at hperm
  exact (Nat.add_comm _ _).trans hperm

/-- A key whose value passes a test is taken out with its only entry. -/
theorem erase_eq_filter {t : Table α} {key : Bytes} {v : α} {p : α → Bool}
    (h : t.get? key = some v) (hp : p v = true) :
    t.erase key = t.filter fun k w => !(k == key && p w) := by
  refine entries_inj (List.filter_congr fun e he => ?_)
  by_cases hk : e.1 = key
  · have hv : some v = some e.2 := by
      rw [← h, ← hk]
      exact (mem_entries_iff t e.1 e.2).mp he
    cases hv
    simp [hk, hp]
  · have hother : (e.1 == key) = false := beq_false_of_ne hk
    simp [bne, hother]

/-- A key without a value that passes the test stays, with all others. -/
theorem filter_eq_self_of_get? {t : Table α} {key : Bytes} {p : α → Bool}
    (h : ∀ v, t.get? key = some v → p v = false) :
    t.filter (fun k w => !(k == key && p w)) = t := by
  refine entries_inj (List.filter_eq_self.mpr fun e he => ?_)
  by_cases hk : e.1 = key
  · have hv := h e.2 (by rw [← hk]; exact (mem_entries_iff t e.1 e.2).mp he)
    simp [hv]
  · simp [hk]

end Table
end TickRelay
