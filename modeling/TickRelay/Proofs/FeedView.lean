import TickRelay.Feed.Client
import Mathlib.Data.List.Nodup

/-!
# The subscription list of the feed as a set

**Results.** Adding and taking out are those of a set (`mem_add`,
`mem_remove`), and the list never holds a symbol twice (`nodup_add`,
`nodup_remove`, `nodup_ofConfigured`).
-/

namespace TickRelay
namespace Feed
namespace Symbols

variable {l : Symbols} {symbol : Bytes}

theorem mem_add {s : Bytes} : s ∈ (add l symbol).1 ↔ s = symbol ∨ s ∈ l := by
  unfold add
  split
  · rename_i h
    have hm : symbol ∈ l := by simpa using h
    constructor
    · exact Or.inr
    · rintro (rfl | hs)
      · exact hm
      · exact hs
  · simp [or_comm]

theorem nodup_add (hl : l.Nodup) : (add l symbol).1.Nodup := by
  unfold add
  split
  · exact hl
  · rename_i h
    have hm : symbol ∉ l := by simpa using h
    rw [List.nodup_append]
    refine ⟨hl, List.nodup_singleton symbol, ?_⟩
    rintro a ha b hb rfl
    exact hm (List.mem_singleton.mp hb ▸ ha)

/-- A list without duplicates loses the symbol altogether. -/
theorem mem_remove (hl : l.Nodup) {s : Bytes} :
    s ∈ (remove l symbol).1 ↔ s ≠ symbol ∧ s ∈ l := by
  unfold remove
  split
  · exact hl.mem_erase_iff
  · rename_i h
    have hm : symbol ∉ l := by simpa using h
    constructor
    · intro hs
      refine ⟨?_, hs⟩
      rintro rfl
      exact hm hs
    · exact And.right

theorem nodup_remove (hl : l.Nodup) : (remove l symbol).1.Nodup := by
  unfold remove
  split
  · exact hl.erase symbol
  · exact hl

theorem nodup_addAll (symbols : List Bytes) (hl : l.Nodup) :
    (symbols.foldl (fun l s => (add l (Symbol.normalize s)).1) l).Nodup := by
  induction symbols generalizing l with
  | nil => exact hl
  | cons s symbols ih => exact ih (nodup_add hl)

theorem nodup_ofConfigured (symbols : List Bytes) :
    (ofConfigured symbols).Nodup :=
  nodup_addAll symbols List.nodup_nil

end Symbols
end Feed
end TickRelay
