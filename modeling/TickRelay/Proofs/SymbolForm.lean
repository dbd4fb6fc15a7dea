import TickRelay.Symbol
import TickRelay.Proofs.Utf8RoundTrip

/-!
# Symbols in normal form

**Algorithm.** A symbol is trimmed and then written in upper case, which is a
table of runs. `CaseRun.misses` compares where one run is moved to with another
run by ends and strides alone, so that the runs are compared pair by pair and
not member by member.

**Results.** `trimmed_trim` and `trim_of_trimmed`: trimming leaves no white
space at either end, and nothing to trim. `upper_upper` and `isBlank_upper`:
upper case is reached in one step, and turns nothing into white space. Hence
`normalize_normalize`: a symbol in normal form is its own normal form.
-/

namespace TickRelay
namespace Symbol

open Unicode

/-- Neither the first nor the last character is white space. -/
structure Trimmed (cs : List Char) : Prop where
  first : ∀ c ∈ cs.head?, isBlank c = false
  last : ∀ c ∈ cs.getLast?, isBlank c = false

theorem dropWhile_of_head {p : Char → Bool} {cs : List Char}
    (h : ∀ c ∈ cs.head?, p c = false) : cs.dropWhile p = cs := by
  cases cs with
  | nil => rfl
  | cons c cs => simp [h c rfl]

theorem head_dropWhile (p : Char → Bool) (cs : List Char) :
    ∀ c ∈ (cs.dropWhile p).head?, p c = false := by
  intro c hc
  have hnot := List.head?_dropWhile_not p cs
  rw [hc] at hnot
  exact hnot

/-- What is left after trimming, with the white space that was cut off
at its end. -/
theorem trim_append (cs : List Char) :
    ∃ tail, cs.dropWhile isBlank = trim cs ++ tail := by
  refine ⟨((cs.dropWhile isBlank).reverse.takeWhile isBlank).reverse, ?_⟩
  rw [trim, ← List.reverse_append, List.takeWhile_append_dropWhile,
    List.reverse_reverse]

theorem trimmed_trim (cs : List Char) : Trimmed (trim cs) := by
  constructor
  · intro c hc
    obtain ⟨tail, htail⟩ := trim_append cs
    refine head_dropWhile isBlank cs c ?_
    rw [htail, List.head?_append, hc]
    rfl
  · intro c hc
    rw [trim, List.getLast?_reverse] at hc
    exact head_dropWhile isBlank _ c hc

theorem trim_of_trimmed {cs : List Char} (h : Trimmed cs) : trim cs = cs := by
  rw [trim, dropWhile_of_head h.first, dropWhile_of_head, List.reverse_reverse]
  rw [List.head?_reverse]
  exact h.last

end Symbol

namespace Unicode

namespace CaseRun

/-- Where a member of a run is moved to. -/
def moved (r : CaseRun) (c : Nat) : Nat := ((c : Int) + r.shift).toNat

/-- Whether no code point of `first`, `first + stride`, …, `last` is a member
of a run: they are to one side of it, or between its members. -/
def misses (first last stride : Nat) (s : CaseRun) : Bool :=
  Nat.blt last s.first || Nat.blt s.last first ||
    (Nat.beq s.stride 2 && (Nat.beq stride 2 || Nat.beq first last) &&
      Nat.beq ((first + s.first) % 2) 1)

/-- Whether the members of a run are moved to characters other than white
space. -/
def lands (r : CaseRun) : Bool :=
  decide (0 ≤ (r.first : Int) + r.shift) &&
    (Nat.blt (r.moved r.last) 0xD800 ||
      (Nat.blt 0xDFFF (r.moved r.first) &&
        Nat.blt (r.moved r.last) 0x110000)) &&
    blankRanges.all fun b =>
    Nat.blt (r.moved r.last) b.1 || Nat.blt b.2 (r.moved r.first)

variable {r s : CaseRun} {c d : Nat}

theorem holds_iff :
    r.holds c = true ↔ r.first ≤ c ∧ c ≤ r.last ∧
    (c - r.first) % r.stride = 0 := by
  simp [holds, and_assoc]

/-- A run that is missed holds none of the code points. -/
theorem holds_of_misses {first last stride : Nat}
    (h : misses first last stride s = true) (hfirst : first ≤ d)
    (hlast : d ≤ last) (hstride : stride = 2 → (d - first) % 2 = 0) :
    s.holds d = false := by
  rw [← Bool.not_eq_true, holds_iff]
  rintro ⟨hge, hle, hmod⟩
  simp only [misses, Bool.or_eq_true, Bool.and_eq_true,
    Nat.blt_eq, Nat.beq_eq] at h
  rcases h with (hbelow | habove) | ⟨⟨htwo, hmembers⟩, hodd⟩
  · omega
  · omega
  · rw [htwo] at hmod
    have heven : (d - first) % 2 = 0 := by
      rcases hmembers with hsteps | hone
      · exact hstride hsteps
      · have hd : d - first = 0 := by omega
        rw [hd]
    omega

end CaseRun

section Table

/-- No run is moved onto a member of a run. -/
theorem caseRuns_miss :
    (caseRuns.all fun r => caseRuns.all
      (CaseRun.misses (r.moved r.first) (r.moved r.last) r.stride)) = true := by
  decide +kernel

theorem caseRuns_land : (caseRuns.all fun r => r.lands) = true := by
  decide +kernel

variable {r : CaseRun} {c : Nat}

/-- Where a member of a run is moved to, in the terms of the checks on the
table. -/
theorem moved_between (hr : r ∈ caseRuns) (hc : r.holds c = true) :
    r.moved r.first ≤ r.moved c ∧ r.moved c ≤ r.moved r.last ∧
      (r.stride = 2 → (r.moved c - r.moved r.first) % 2 = 0) := by
  obtain ⟨hge, hle, hmod⟩ := CaseRun.holds_iff.mp hc
  have hlands := List.all_eq_true.mp caseRuns_land r hr
  simp only [CaseRun.lands, Bool.and_eq_true, decide_eq_true_eq] at hlands
  have hnonneg := hlands.1.1
  unfold CaseRun.moved
  refine ⟨by omega, by omega, fun htwo => ?_⟩
  rw [htwo] at hmod
  omega

/-- What has been moved is a member of no run. -/
theorem holds_moved (hr : r ∈ caseRuns) (hc : r.holds c = true) :
    ∀ s ∈ caseRuns, s.holds (r.moved c) = false := by
  intro s hs
  have hmiss :=
    List.all_eq_true.mp (List.all_eq_true.mp caseRuns_miss r hr) s hs
  obtain ⟨hfirst, hlast, hstride⟩ := moved_between hr hc
  exact CaseRun.holds_of_misses hmiss hfirst hlast hstride

/-- It is the number of a character that is no white space. -/
theorem moved_lands (hr : r ∈ caseRuns) (hc : r.holds c = true) :
    (r.moved c).isValidChar ∧ ∀ b ∈ blankRanges, r.moved c < b.1 ∨
    b.2 < r.moved c := by
  obtain ⟨hfirst, hlast, -⟩ := moved_between hr hc
  have hlands := List.all_eq_true.mp caseRuns_land r hr
  simp only [CaseRun.lands, Bool.and_eq_true, Bool.or_eq_true,
    decide_eq_true_eq, Nat.blt_eq, List.all_eq_true] at hlands
  obtain ⟨⟨-, hvalid⟩, hblank⟩ := hlands
  constructor
  · show r.moved c < 0xD800 ∨ (0xDFFF < r.moved c ∧ r.moved c < 0x110000)
    omega
  · intro b hb
    have hside := hblank b hb
    omega

end Table

/-- A code point stays, or is moved with the run that holds it. -/
theorem upperCode_cases (c : Nat) :
    (upperCode c = c ∧ ∀ s ∈ caseRuns, s.holds c = false) ∨
      ∃ r ∈ caseRuns, r.holds c = true ∧ upperCode c = r.moved c := by
  unfold upperCode
  cases h : caseRuns.find? (·.holds c) with
  | none =>
      left
      exact ⟨rfl, fun s hs => by simpa using List.find?_eq_none.mp h s hs⟩
  | some r =>
      right
      exact ⟨r, List.mem_of_find?_eq_some h,
        List.find?_some (p := fun s : CaseRun => s.holds c) h, rfl⟩

theorem holds_upperCode (c : Nat) :
    ∀ s ∈ caseRuns, s.holds (upperCode c) = false := by
  rcases upperCode_cases c with ⟨hstays, hnone⟩ | ⟨r, hr, hc, hmoved⟩
  · rw [hstays]
    exact hnone
  · rw [hmoved]
    exact holds_moved hr hc

theorem upperCode_upperCode (c : Nat) :
    upperCode (upperCode c) = upperCode c := by
  rcases upperCode_cases (upperCode c) with ⟨hstays, -⟩ | ⟨r, hr, hc, -⟩
  · exact hstays
  · rw [holds_upperCode c r hr] at hc
    cases hc

theorem upperCode_valid (c : Char) : (upperCode c.toNat).isValidChar := by
  rcases upperCode_cases c.toNat with ⟨hstays, -⟩ | ⟨r, hr, hc, hmoved⟩
  · rw [hstays]
    exact c.valid
  · rw [hmoved]
    exact (moved_lands hr hc).1

/-- Upper case is reached in one step. -/
theorem upper_upper (c : Char) : upper (upper c) = upper c := by
  rw [upper, upper, Utf8.toNat_ofNat (upperCode_valid c), upperCode_upperCode]

/-- Upper case turns nothing into white space. -/
theorem isBlank_upper {c : Char} (h : isBlank c = false) :
    isBlank (upper c) = false := by
  rcases upperCode_cases c.toNat with ⟨hstays, -⟩ | ⟨r, hr, hc, hmoved⟩
  · rw [upper, hstays, Char.ofNat_toNat]
    exact h
  · rw [isBlank, upper, Utf8.toNat_ofNat (upperCode_valid c), hmoved,
      List.any_eq_false]
    intro b hb
    have hside := (moved_lands hr hc).2 b hb
    simp only [Bool.and_eq_true, decide_eq_true_eq]
    omega

end Unicode

namespace Symbol

open Unicode

theorem Trimmed.map_upper {cs : List Char} (h : Trimmed cs) :
    Trimmed (cs.map upper) := by
  constructor
  · intro d hd
    rw [List.head?_map] at hd
    obtain ⟨c, hc, rfl⟩ := Option.map_eq_some_iff.mp hd
    exact isBlank_upper (h.first c hc)
  · intro d hd
    rw [List.getLast?_map] at hd
    obtain ⟨c, hc, rfl⟩ := Option.map_eq_some_iff.mp hd
    exact isBlank_upper (h.last c hc)

/-- A symbol in normal form is its own normal form. -/
theorem normalize_normalize (s : Bytes) :
    normalize (normalize s) = normalize s := by
  have hupper : ∀ cs : List Char, (cs.map upper).map upper = cs.map upper := by
    intro cs
    rw [List.map_map]
    exact List.map_congr_left fun c _ => upper_upper c
  rw [normalize, normalize, Utf8.scalars_encode,
    trim_of_trimmed (trimmed_trim _).map_upper, hupper]

end Symbol
end TickRelay
