import TickRelay.Calendar.Text
import TickRelay.Proofs.CivilTimes
import TickRelay.Proofs.DecimalDigits
import Mathlib.Data.List.TakeWhile

/-!
# The range of written times

**Input.** Any text that `ZonedTime.parse?` takes.

**Algorithm.** The year that is written has four digits. The zone moves the
time by 25 hours at most, so in UTC it falls in the month that is written or in
one beside it.

**Results.** `ZonedTime.fourDigits_or_spills`: in UTC the year has four digits
as well, unless the time is written in the first year or in the last one and
its zone reaches over the edge.
-/

namespace TickRelay

namespace Calendar

variable {s rest : Bytes} {n : Nat}

theorem digit?_le (h : digit? s = some (n, rest)) : n ≤ 9 := by
  cases s with
  | nil => cases h
  | cons b t =>
      dsimp only [digit?] at h
      split at h
      · rename_i hb
        cases h
        exact Bytes.digitValue_le hb
      · cases h

theorem two?_le (h : two? s = some (n, rest)) : n ≤ 99 := by
  obtain ⟨⟨a, t⟩, ha, htail⟩ := Option.bind_eq_some_iff.mp h
  obtain ⟨⟨b, u⟩, hb, heq⟩ := Option.bind_eq_some_iff.mp htail
  cases heq
  have hfirst := digit?_le ha
  have hsecond := digit?_le hb
  omega

theorem four?_le (h : four? s = some (n, rest)) : n ≤ 9999 := by
  obtain ⟨⟨a, t⟩, ha, htail⟩ := Option.bind_eq_some_iff.mp h
  obtain ⟨⟨b, u⟩, hb, heq⟩ := Option.bind_eq_some_iff.mp htail
  cases heq
  have hfirst := two?_le ha
  have hsecond := two?_le hb
  omega

theorem atMost?_le {bound m : Nat} (h : atMost? n bound = some m) :
    m ≤ bound := by
  unfold atMost? at h
  split at h
  · rename_i hle
    cases h
    exact hle
  · cases h

theorem fraction_lt (s : Bytes) : (fraction s).1 < 1000000000 := by
  unfold fraction
  split
  · rename_i c t
    dsimp only
    split
    · set nine := (t.takeWhile Bytes.isDigit).take 9 with hnine
      have hdigits : ∀ b ∈ nine, Bytes.isDigit b = true := fun b hb =>
        List.mem_takeWhile_imp (List.mem_of_mem_take hb)
      have hlength : nine.length ≤ 9 := List.length_take_le 9 _
      calc
        Bytes.number nine * Nat.pow 10 (9 - nine.length)
            < Nat.pow 10 nine.length * Nat.pow 10 (9 - nine.length) :=
          Nat.mul_lt_mul_of_pos_right (Bytes.number_lt hdigits)
            (Nat.pow_pos (by decide))
        _ = Nat.pow 10 (nine.length + (9 - nine.length)) :=
          (Nat.pow_add 10 _ _).symm
        _ = 1000000000 := by rw [Nat.add_sub_cancel' hlength]
    · exact Nat.zero_lt_succ _
  · decide

theorem zone?_le {offset : Int} (h : zone? s = some (offset, rest)) :
    offset.natAbs ≤ 90000 := by
  unfold zone? at h
  split at h
  · cases h
    decide
  · split at h
    · obtain ⟨⟨a, t⟩, -, h⟩ := Option.bind_eq_some_iff.mp h
      obtain ⟨u, -, h⟩ := Option.bind_eq_some_iff.mp h
      obtain ⟨⟨b, v⟩, -, h⟩ := Option.bind_eq_some_iff.mp h
      obtain ⟨hours, hhours, h⟩ := Option.bind_eq_some_iff.mp h
      obtain ⟨minutes, hminutes, h⟩ := Option.bind_eq_some_iff.mp h
      have hh := atMost?_le hhours
      have hm := atMost?_le hminutes
      cases h
      split
      · omega
      · omega
    · cases h
  · cases h

end Calendar

/-- The year is one of those with four digits. -/
def Date.FourDigits (d : Date) : Prop := 0 ≤ d.year ∧ d.year ≤ 9999

/-- Days that are at most four weeks apart are of one month or of two that
follow each other. -/
theorem Date.monthIndex_near {d e : Date} (hd : d.exists? = true)
    (he : e.exists? = true) (h : d.dayNumber ≤ e.dayNumber + 28) :
    d.monthIndex ≤ e.monthIndex + 1 := by
  have hfrom := dayNumber_between hd
  have hto := dayNumber_between he
  have hnext := monthStart_succ (e.monthIndex + 1)
  have hdays := daysOfMonth_between (e.monthIndex + 1)
  have hlt : monthStart d.monthIndex < monthStart (e.monthIndex + 1 + 1) := by
    omega
  have hmonths := monthStart_lt_iff.mp hlt
  omega

namespace ZonedTime

variable {s : Bytes} {z : ZonedTime}

theorem civil_shift (t : Instant) (offset : Int) :
    civil ⟨t.shift (-offset * nanosPerSecond), offset⟩ = t.civil := by
  have hback :
      (t.shift (-offset * nanosPerSecond)).shift (offset * nanosPerSecond) =
        t := by
    cases t with
    | mk nanos =>
        simp only [Instant.shift, Instant.mk.injEq]
        rw [Int.neg_mul]
        omega
  unfold civil
  rw [hback]

/-- The year that is written has four digits, and no zone is more than 25 hours
from UTC. -/
theorem parse?_spec (h : parse? s = some z) :
    z.civil.date.FourDigits ∧ z.offset.natAbs ≤ 90000 := by
  obtain ⟨⟨year, s₁⟩, hyear, h⟩ := Option.bind_eq_some_iff.mp h
  obtain ⟨s₂, -, h⟩ := Option.bind_eq_some_iff.mp h
  obtain ⟨⟨month, s₃⟩, -, h⟩ := Option.bind_eq_some_iff.mp h
  obtain ⟨s₄, -, h⟩ := Option.bind_eq_some_iff.mp h
  obtain ⟨⟨day, s₅⟩, -, h⟩ := Option.bind_eq_some_iff.mp h
  obtain ⟨s₆, -, h⟩ := Option.bind_eq_some_iff.mp h
  obtain ⟨⟨hour₀, s₇⟩, -, h⟩ := Option.bind_eq_some_iff.mp h
  obtain ⟨s₈, -, h⟩ := Option.bind_eq_some_iff.mp h
  obtain ⟨⟨minute₀, s₉⟩, -, h⟩ := Option.bind_eq_some_iff.mp h
  obtain ⟨s₁₀, -, h⟩ := Option.bind_eq_some_iff.mp h
  obtain ⟨⟨second₀, s₁₁⟩, -, h⟩ := Option.bind_eq_some_iff.mp h
  dsimp only at h
  -- Of the fraction only its bound counts, so it stays closed.
  have hnano := Calendar.fraction_lt s₁₁
  generalize Calendar.fraction s₁₁ = fraction at h hnano
  obtain ⟨nano, s₁₂⟩ := fraction
  obtain ⟨⟨offset, s₁₃⟩, hzone, h⟩ := Option.bind_eq_some_iff.mp h
  obtain ⟨hour, hhour, h⟩ := Option.bind_eq_some_iff.mp h
  obtain ⟨minute, hminute, h⟩ := Option.bind_eq_some_iff.mp h
  obtain ⟨second, hsecond, h⟩ := Option.bind_eq_some_iff.mp h
  dsimp only at h
  split at h
  · rename_i hdate
    cases h
    have hfields : DateTime.Proper
        ⟨⟨year, month, day⟩, hour, minute, second, nano⟩ :=
      ⟨hdate.2, Nat.lt_succ_of_le (Calendar.atMost?_le hhour),
        Nat.lt_succ_of_le (Calendar.atMost?_le hminute),
        Nat.lt_succ_of_le (Calendar.atMost?_le hsecond), hnano⟩
    refine ⟨?_, Calendar.zone?_le hzone⟩
    rw [civil_shift, DateTime.civil_instant hfields]
    have hle := Calendar.four?_le hyear
    unfold Date.FourDigits
    dsimp only
    omega
  · cases h

/-- The zone carries the time out of the years with four digits: it is written
in the first of them and in UTC it is the year before, or it is written in the
last and in UTC it is the year after. -/
def Spills (z : ZonedTime) : Prop :=
  z.civil.date.year = 0 ∧ z.instant.civil.date.year = -1 ∨
    z.civil.date.year = 9999 ∧ z.instant.civil.date.year = 10000

instance (z : ZonedTime) : Decidable z.Spills :=
  inferInstanceAs (Decidable (_ ∧ _ ∨ _ ∧ _))

/-- The months of a clock of the zone and of one of UTC. -/
theorem month_near (hoffset : z.offset.natAbs ≤ 90000) :
    z.civil.date.monthIndex ≤ z.instant.civil.date.monthIndex + 1 ∧
      z.instant.civil.date.monthIndex ≤ z.civil.date.monthIndex + 1 := by
  have hthere :
      z.civil.date.dayNumber =
        (z.instant.shift (z.offset * nanosPerSecond)).seconds / 86400 +
          epochDay :=
    Instant.dayNumber_date _
  have hhere := z.instant.dayNumber_date
  have hseconds : (z.instant.shift (z.offset * nanosPerSecond)).seconds =
      z.instant.seconds + z.offset := by
    simp only [Instant.seconds, Instant.shift, nanosPerSecond]
    omega
  rw [hseconds] at hthere
  have hdate : z.civil.date.exists? = true := Instant.exists_date _
  constructor
  · exact Date.monthIndex_near hdate z.instant.exists_date (by omega)
  · exact Date.monthIndex_near z.instant.exists_date hdate (by omega)

theorem fourDigits_or_spills (h : parse? s = some z) :
    ¬ z.instant.civil.date.FourDigits ↔ z.Spills := by
  obtain ⟨hwritten, hoffset⟩ := parse?_spec h
  have hmonths := month_near hoffset
  have hthere :=
    Date.month_between
      (Instant.exists_date (z.instant.shift (z.offset * nanosPerSecond)))
  have hhere := Date.month_between z.instant.exists_date
  -- The years with four digits are the months from 0 to 119999, and the two
  -- clocks are at most one month apart: only the first and the last of these
  -- months have a neighbour outside.
  unfold Date.FourDigits at hwritten ⊢
  unfold Date.monthIndex at hmonths
  unfold Spills
  change 1 ≤ z.civil.date.month ∧ z.civil.date.month ≤ 12 at hthere
  omega

end ZonedTime
end TickRelay
