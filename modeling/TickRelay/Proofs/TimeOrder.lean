import TickRelay.Calendar.Instant

/-!
# Times in order and limits

Whoever forgets what is older than some age reckons back from the clock to a
limit, and drops the first things in a list as long as they are before it.

**Results.** `nanos_shift_neg`: the limit lies where it should.
`dropWhile_before`: of things in the order of their times exactly those before
the limit are dropped.
-/

namespace TickRelay
namespace Instant

theorem before_iff {t u : Instant} :
    t.before u = true ↔ t.nanos < u.nanos := by
  simp [before]

theorem not_before_iff {t u : Instant} :
    (!t.before u) = true ↔ u.nanos ≤ t.nanos := by
  rw [Bool.not_eq_true', ← Bool.not_eq_true, before_iff, Int.not_lt]

/-- A positive length of time has a negative. -/
theorem nanos_shift_neg (t : Instant) {age : Int64} (h : 0 < age) :
    (t.shift (-age).toInt).nanos = t.nanos - age.toInt := by
  have hpos : 0 < age.toInt := Int64.lt_iff_toInt_lt.mp h
  have hlt := age.toInt_lt
  have hneg : (-age).toInt = -age.toInt := by
    rw [Int64.toInt_neg, Int.bmod_eq_of_le]
    · omega
    · omega
  rw [shift, hneg]
  exact Int.sub_eq_add_neg.symm

/-- Of things in the order of their times, those before a limit come first. -/
theorem dropWhile_before {α : Type} (time : α → Instant) (limit : Instant)
    {l : List α} (h : l.Pairwise fun a b => (time a).nanos ≤ (time b).nanos) :
    l.dropWhile (fun a => (time a).before limit) = l.filter fun a =>
      !(time a).before limit := by
  induction l with
  | nil => rfl
  | cons a l ih =>
      obtain ⟨ha, hl⟩ := List.pairwise_cons.mp h
      cases hb : (time a).before limit with
      | true => simp [hb, ih hl]
      | false =>
          have hall : l.filter (fun b => !(time b).before limit) = l := by
            refine List.filter_eq_self.mpr fun b hmem => ?_
            have hle := ha b hmem
            rw [← Bool.not_eq_true, before_iff] at hb
            rw [not_before_iff]
            omega
          simp [hb, hall]

end Instant
end TickRelay
