import TickRelay.Bytes

/-!
# Tables

Finite maps from texts to values, each key at most once. The order of the
entries carries no meaning; whoever shows keys sorts them.

**Results.** `get?` is the view: `get?_set` and `get?_erase` say what the two
changes do to it.
-/

namespace TickRelay

/-- A finite map with texts as keys. -/
structure Table (α : Type) where
  entries : List (Bytes × α)
  distinct : (entries.map Prod.fst).Nodup

namespace Table

variable {α β : Type}

/-- The table without entries. -/
def empty : Table α := ⟨[], List.nodup_nil⟩

instance : Inhabited (Table α) := ⟨empty⟩

/-- The value of a key. -/
def get? (t : Table α) (key : Bytes) : Option α := t.entries.lookup key

/-- The keys. -/
def keys (t : Table α) : List Bytes := t.entries.map Prod.fst

/-- The number of entries. -/
def size (t : Table α) : Nat := t.entries.length

/-- Whether a key has a value. -/
def contains (t : Table α) (key : Bytes) : Bool := (t.get? key).isSome

/-- Keeps the entries that pass a test. -/
def filter (t : Table α) (p : Bytes → α → Bool) : Table α where
  entries := t.entries.filter fun e => p e.1 e.2
  distinct := t.distinct.sublist (List.filter_sublist.map Prod.fst)

/-- Takes a key out. -/
def erase (t : Table α) (key : Bytes) : Table α := t.filter fun k _ => k != key

/-- Gives a key a value, in place of the one it had. -/
def set (t : Table α) (key : Bytes) (value : α) : Table α where
  entries := (key, value) :: (t.erase key).entries
  distinct := by
    refine List.nodup_cons.mpr ⟨fun h => ?_, (t.erase key).distinct⟩
    obtain ⟨e, he, hk⟩ := List.mem_map.mp h
    have := (List.mem_filter.mp he).2
    simp [hk] at this

/-- Changes every value. -/
def map (t : Table α) (f : α → β) : Table β where
  entries := t.entries.map fun e => (e.1, f e.2)
  distinct := by simpa [Function.comp_def] using t.distinct

/-- The keys in byte order. -/
def sortedKeys (t : Table α) : List Bytes := Bytes.sort t.keys

@[simp] theorem get?_empty (key : Bytes) : (empty : Table α).get? key = none :=
  rfl

/-- A look-up passes over entries of another key. -/
theorem lookup_filter_ne (l : List (Bytes × α)) {k key : Bytes} (h : k ≠ key) :
    (l.filter fun e => e.1 != key).lookup k = l.lookup k := by
  induction l with
  | nil => rfl
  | cons e l ih =>
    obtain ⟨a, v⟩ := e
    by_cases ha : a = key
    · subst ha
      have hk : (k == a) = false := beq_false_of_ne h
      simp [List.lookup_cons, hk, ih]
    · have hf : (a != key) = true := by simp [ha]
      simp only [List.filter, hf]
      simp only [List.lookup_cons, ih]

/-- Nothing is found under a key whose entries are gone. -/
theorem lookup_filter_self (l : List (Bytes × α)) (key : Bytes) :
    (l.filter fun e => e.1 != key).lookup key = none := by
  induction l with
  | nil => rfl
  | cons e l ih =>
    obtain ⟨a, v⟩ := e
    by_cases ha : a = key
    · have hf : (a != key) = false := by simp [ha]
      simpa only [List.filter, hf] using ih
    · have hf : (a != key) = true := by simp [ha]
      have hk : (key == a) = false := beq_false_of_ne (Ne.symm ha)
      simp only [List.filter, hf]
      simp only [List.lookup_cons, hk, ih]

/-- What taking a key out does to the view. -/
theorem get?_erase (t : Table α) (key k : Bytes) :
    (t.erase key).get? k = if k = key then none else t.get? k := by
  by_cases h : k = key
  · subst h
    simpa [get?, erase, filter] using lookup_filter_self t.entries k
  · simpa [get?, erase, filter, h] using lookup_filter_ne t.entries h

/-- What giving a key a value does to the view. -/
theorem get?_set (t : Table α) (key k : Bytes) (value : α) :
    (t.set key value).get? k = if k = key then some value else t.get? k := by
  by_cases h : k = key
  · subst h
    simp [get?, set]
  · have hk : (k == key) = false := by simp [h]
    have := get?_erase t key k
    simp [get?, h] at this
    simp [get?, set, List.lookup_cons, hk, h, this]

end Table
end TickRelay
