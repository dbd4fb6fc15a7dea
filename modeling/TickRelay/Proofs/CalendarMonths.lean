import TickRelay.Calendar.Date
import Mathlib.Order.SuccPred.IntervalSucc
import Mathlib.Algebra.Order.Group.Int
import Mathlib.Data.Int.SuccPred
import Mathlib.Tactic.Set

/-!
# Months as intervals of days

Months are counted from the first one of year 0. Month `k` is the days from
`monthStart k` up to `monthStart (k + 1)`, so the calendar is one strictly
increasing sequence of day numbers.
-/

namespace TickRelay
namespace Date

/-- The days of a year. -/
def yearLength (y : Int) : Nat := if isLeap y then 366 else 365

theorem isLeap_iff (y : Int) :
    isLeap y = true ↔ y % 4 = 0 ∧ (y % 100 ≠ 0 ∨ y % 400 = 0) := by
  simp [isLeap]

theorem daysBeforeYear_succ (y : Int) :
    daysBeforeYear (y + 1) = daysBeforeYear y + yearLength y := by
  unfold daysBeforeYear yearLength
  split
  · rename_i h
    rw [isLeap_iff] at h
    dsimp only
    omega
  · rename_i h
    rw [isLeap_iff] at h
    dsimp only
    omega

section Parts

-- A year is named by its cycle, its century in the cycle, its group of four
-- and its place there.
variable {cycle century group place : Int}
  (hcentury : 0 ≤ century ∧ century ≤ 3) (hgroup : 0 ≤ group ∧ group ≤ 24)
  (hplace : 0 ≤ place ∧ place ≤ 3)

include hcentury hgroup hplace

theorem daysBeforeYear_parts :
    daysBeforeYear (400 * cycle + 100 * century + 4 * group + place + 1) =
      146097 * cycle + 36524 * century + 1461 * group + 365 * place := by
  have hp : 400 * cycle + 100 * century + 4 * group + place + 1 - 1 =
      400 * cycle + 100 * century + 4 * group + place := by omega
  have hfour : (400 * cycle + 100 * century + 4 * group + place) / 4 =
      100 * cycle + 25 * century + group := by omega
  have hhundred : (400 * cycle + 100 * century + 4 * group + place) / 100 =
      4 * cycle + century := by omega
  have hcycle :
      (400 * cycle + 100 * century + 4 * group + place) / 400 = cycle := by
    omega
  simp only [daysBeforeYear, hp, hfour, hhundred, hcycle]
  omega

theorem isLeap_parts :
    isLeap (400 * cycle + 100 * century + 4 * group + place + 1) = true ↔
      place = 3 ∧ (group ≠ 24 ∨ century = 3) := by
  rw [isLeap_iff]
  omega

end Parts

theorem splitYear_spec (n : Int) :
    daysBeforeYear (splitYear n).1 + (splitYear n).2 = n ∧
    0 ≤ (splitYear n).2 ∧
      (splitYear n).2 < yearLength (splitYear n).1 := by
  unfold splitYear
  dsimp only
  set century := min (n % 146097 / 36524) 3 with hc
  set group := (n % 146097 - 36524 * century) / 1461 with hg
  set rest := (n % 146097 - 36524 * century) % 1461 with hr
  set place := min (rest / 365) 3 with hp
  have hcentury : 0 ≤ century ∧ century ≤ 3 := by omega
  have hgroup : 0 ≤ group ∧ group ≤ 24 := by omega
  have hplace : 0 ≤ place ∧ place ≤ 3 := by omega
  have hn :
      n = 146097 * (n / 146097) + 36524 * century + 1461 * group + rest := by
    omega
  have hrest : 0 ≤ rest ∧ rest < 1461 := by omega
  rw [daysBeforeYear_parts hcentury hgroup hplace, yearLength]
  refine ⟨by omega, by omega, ?_⟩
  split
  · omega
  · rename_i hleap
    rw [isLeap_parts hcentury hgroup hplace] at hleap
    simp only [Nat.cast_ofNat]
    omega

/-- The days of some months. -/
def total (lengths : List Nat) : Nat := lengths.foldl (· + ·) 0

theorem foldl_add (lengths : List Nat) (a : Nat) :
    lengths.foldl (· + ·) a = a + total lengths := by
  induction lengths generalizing a with
  | nil => rfl
  | cons x lengths ih =>
      have htotal : total (x :: lengths) = 0 + x + total lengths := ih (0 + x)
      have hfold : (x :: lengths).foldl (· + ·) a = a + x + total lengths :=
        ih (a + x)
      omega

theorem total_cons (x : Nat) (lengths : List Nat) :
    total (x :: lengths) = x + total lengths := by
  have hfold : total (x :: lengths) = 0 + x + total lengths :=
    foldl_add lengths (0 + x)
  omega

theorem total_take_succ (lengths : List Nat) (i : Nat) :
    total (lengths.take (i + 1)) =
      total (lengths.take i) + (lengths[i]?).getD 0 := by
  induction lengths generalizing i with
  | nil => simp [total]
  | cons x lengths ih =>
      cases i with
      | zero => simp [total]
      | succ i =>
          have hnext := ih i
          simp only [List.take_succ_cons, total_cons, List.getElem?_cons_succ]
          omega

theorem splitMonth_spec {lengths : List Nat} {r : Nat} (m : Nat)
    (hr : r < total lengths) :
    ∃ i, i < lengths.length ∧ (splitMonth lengths m r).1 = m + i ∧
      total (lengths.take i) + (splitMonth lengths m r).2 = r ∧
      (splitMonth lengths m r).2 < (lengths[i]?).getD 0 := by
  fun_induction splitMonth lengths m r with
  | case1 m r => exact absurd hr (Nat.not_lt_zero r)
  | case2 x m r =>
      exact ⟨0, by simp, by simp, by simp [total], by simpa [total] using hr⟩
  | case3 x lengths m r _ hlt =>
      exact ⟨0, by simp, by simp, by simp [total], by simpa using hlt⟩
  | case4 x lengths m r _ hlt ih =>
      rw [total_cons] at hr
      obtain ⟨i, hi, hmonth, hsum, hday⟩ := ih (by omega)
      refine ⟨i + 1, by simpa using hi, by omega, ?_, by simpa using hday⟩
      rw [List.take_succ_cons, total_cons]
      omega

theorem total_monthLengths (y : Int) :
    total (monthLengths y) = yearLength y := by
  unfold monthLengths yearLength
  split <;> rfl

theorem monthLength_succ (y : Int) (i : Nat) :
    monthLength y (i + 1) = ((monthLengths y)[i]?).getD 0 := rfl

theorem daysBeforeMonth_succ (y : Int) (i : Nat) :
    daysBeforeMonth y (i + 1) = total ((monthLengths y).take i) := rfl

/-- The length of a month by its place in the year, which depends only on the
leap day. -/
def lengthIn (leap : Bool) (i : Nat) : Nat :=
  ([31, if leap then 29 else 28, 31, 30, 31, 30, 31, 31, 30, 31,
    30, 31][i]?).getD 0

theorem monthLength_eq_lengthIn (y : Int) (i : Nat) :
    monthLength y (i + 1) = lengthIn (isLeap y) i := rfl

theorem monthLength_between {y : Int} {m : Nat} (hm : 1 ≤ m ∧ m ≤ 12) :
    28 ≤ monthLength y m ∧ monthLength y m ≤ 31 := by
  have hall : ∀ i < 12, ∀ leap : Bool, 28 ≤ lengthIn leap i ∧
      lengthIn leap i ≤ 31 := by decide
  obtain ⟨i, rfl⟩ : ∃ i, m = i + 1 := ⟨m - 1, by omega⟩
  exact hall i (by omega) (isLeap y)

theorem exists_iff {d : Date} :
    d.exists? = true ↔ 1 ≤ d.day ∧ d.day ≤ monthLength d.year d.month := by
  simp [exists?]

theorem month_between {d : Date} (hd : d.exists? = true) :
    1 ≤ d.month ∧ d.month ≤ 12 := by
  rw [exists_iff] at hd
  have hlength : (monthLengths d.year).length = 12 := rfl
  by_contra hout
  have hnone : monthLength d.year d.month = 0 := by
    unfold monthLength
    split
    · rfl
    · rw [List.getElem?_eq_none (by omega)]
      rfl
  omega

/-- Every day number is the one of its date. -/
theorem ofDayNumber_spec (n : Int) :
    (ofDayNumber n).exists? = true ∧ (ofDayNumber n).dayNumber = n := by
  obtain ⟨hsum, hlow, hhigh⟩ := splitYear_spec n
  have hr : (splitYear n).2.toNat < total (monthLengths (splitYear n).1) := by
    rw [total_monthLengths]
    omega
  obtain ⟨i, -, hmonth, hdays, hday⟩ := splitMonth_spec 1 hr
  have hdate :
      ofDayNumber n =
        ⟨(splitYear n).1, i + 1,
          (splitMonth (monthLengths (splitYear n).1) 1
            (splitYear n).2.toNat).2 + 1⟩ := by
    unfold ofDayNumber
    dsimp only
    rw [hmonth, Nat.add_comm 1 i]
  rw [hdate]
  constructor
  · simp only [exists_iff, monthLength_succ]
    omega
  · simp only [dayNumber, daysBeforeMonth_succ]
    omega

/-- The number of the month of a date, from the first month of year 0. -/
def monthIndex (d : Date) : Int := 12 * d.year + d.month - 1

/-- The first day of a month. -/
def firstDay (k : Int) : Date := ⟨k / 12, (k % 12).toNat + 1, 1⟩

theorem firstDay_injective {j k : Int} (h : firstDay j = firstDay k) :
    j = k := by
  simp only [firstDay, Date.mk.injEq] at h
  omega

/-- The day number of the first day of a month. -/
def monthStart (k : Int) : Int := (firstDay k).dayNumber

/-- The days of a month. -/
def daysOfMonth (k : Int) : Nat := monthLength (k / 12) ((k % 12).toNat + 1)

theorem monthStart_succ (k : Int) :
    monthStart (k + 1) = monthStart k + daysOfMonth k := by
  have hstep := total_take_succ (monthLengths (k / 12)) (k % 12).toNat
  unfold monthStart firstDay daysOfMonth
  simp only [dayNumber, daysBeforeMonth_succ, monthLength_succ]
  by_cases hlast : k % 12 = 11
  · have hyear : (k + 1) / 12 = k / 12 + 1 := by omega
    have hmonth : ((k + 1) % 12).toNat = 0 := by omega
    have heleven : (k % 12).toNat = 11 := by omega
    have hall :
        (monthLengths (k / 12)).take (11 + 1) = monthLengths (k / 12) := rfl
    rw [heleven, hall, total_monthLengths] at hstep
    have hnone : total [] = 0 := rfl
    rw [hyear, hmonth, heleven, daysBeforeYear_succ, List.take_zero, hnone]
    omega
  · have hyear : (k + 1) / 12 = k / 12 := by omega
    have hmonth : ((k + 1) % 12).toNat = (k % 12).toNat + 1 := by omega
    rw [hyear, hmonth, hstep]
    omega

theorem daysOfMonth_between (k : Int) :
    28 ≤ daysOfMonth k ∧ daysOfMonth k ≤ 31 :=
  monthLength_between (by omega)

/-- A month that is shorter than the one before it is followed by a month of 31
days. -/
theorem daysOfMonth_after_short {k : Int}
    (h : daysOfMonth (k + 1) < daysOfMonth k) : daysOfMonth (k + 2) = 31 := by
  have hall : ∀ i < 12, ∀ a b c : Bool,
      lengthIn b ((i + 1) % 12) < lengthIn a i →
      lengthIn c ((i + 2) % 12) = 31 := by decide
  have hone : ((k + 1) % 12).toNat = ((k % 12).toNat + 1) % 12 := by omega
  have htwo : ((k + 2) % 12).toNat = ((k % 12).toNat + 2) % 12 := by omega
  simp only [daysOfMonth, monthLength_eq_lengthIn, hone, htwo] at h ⊢
  exact hall _ (by omega) _ _ _ h

theorem monthStart_lt_iff {j k : Int} :
    monthStart j < monthStart k ↔ j < k := by
  have hmono : StrictMono monthStart := by
    refine strictMono_int_of_lt_succ fun i => ?_
    have hstart := monthStart_succ i
    have hdays := daysOfMonth_between i
    omega
  exact hmono.lt_iff_lt

section Month

variable {d : Date} (hd : d.exists? = true)

include hd

theorem year_of_monthIndex : d.monthIndex / 12 = d.year := by
  have hmonth := month_between hd
  unfold monthIndex
  omega

theorem month_of_monthIndex : (d.monthIndex % 12).toNat + 1 = d.month := by
  have hmonth := month_between hd
  unfold monthIndex
  omega

theorem daysOfMonth_monthIndex :
    daysOfMonth d.monthIndex = monthLength d.year d.month := by
  rw [daysOfMonth, year_of_monthIndex hd, month_of_monthIndex hd]

theorem dayNumber_eq : d.dayNumber = monthStart d.monthIndex + d.day - 1 := by
  rw [monthStart, firstDay, year_of_monthIndex hd, month_of_monthIndex hd]
  simp only [dayNumber]
  omega

theorem day_between : 1 ≤ d.day ∧ d.day ≤ daysOfMonth d.monthIndex := by
  rw [daysOfMonth_monthIndex hd]
  exact exists_iff.mp hd

theorem dayNumber_between :
    monthStart d.monthIndex ≤ d.dayNumber ∧
    d.dayNumber < monthStart (d.monthIndex + 1) := by
  have hday := day_between hd
  rw [dayNumber_eq hd, monthStart_succ]
  omega

theorem nextMonth_eq : d.nextMonth = firstDay (d.monthIndex + 1) := by
  have hmonth := month_between hd
  unfold nextMonth firstDay monthIndex
  split
  · rw [Date.mk.injEq]
    omega
  · rw [Date.mk.injEq]
    omega

end Month

theorem eq_of_monthIndex {d e : Date} (hd : d.exists? = true)
    (he : e.exists? = true) (hmonth : d.monthIndex = e.monthIndex)
    (hday : d.day = e.day) : d = e := by
  have hyear : d.year = e.year := by
    rw [← year_of_monthIndex hd, hmonth, year_of_monthIndex he]
  have hname : d.month = e.month := by
    rw [← month_of_monthIndex hd, hmonth, month_of_monthIndex he]
  cases d
  cases e
  simp_all

/-- The month of a day is the one whose interval holds it. -/
theorem monthIndex_ofDayNumber {n k : Int} :
    (ofDayNumber n).monthIndex = k ↔ monthStart k ≤ n ∧
    n < monthStart (k + 1) := by
  obtain ⟨hdate, hnumber⟩ := ofDayNumber_spec n
  have hmonth := dayNumber_between hdate
  rw [hnumber] at hmonth
  constructor
  · rintro rfl
    exact hmonth
  · rintro ⟨hlow, hhigh⟩
    have hle := monthStart_lt_iff.mp (Int.lt_of_le_of_lt hmonth.1 hhigh)
    have hge := monthStart_lt_iff.mp (Int.lt_of_le_of_lt hlow hmonth.2)
    omega

/-- A date that exists is the date of its day number. -/
theorem ofDayNumber_dayNumber {d : Date} (hd : d.exists? = true) :
    ofDayNumber d.dayNumber = d := by
  obtain ⟨hdate, hnumber⟩ := ofDayNumber_spec d.dayNumber
  have hmonth := monthIndex_ofDayNumber.mpr (dayNumber_between hd)
  refine eq_of_monthIndex hdate hd hmonth ?_
  have hthere := dayNumber_eq hdate
  rw [hnumber, hmonth] at hthere
  have hhere := dayNumber_eq hd
  omega

theorem monthIndex_mono {m n : Int} (h : m ≤ n) :
    (ofDayNumber m).monthIndex ≤ (ofDayNumber n).monthIndex := by
  obtain ⟨hlow, -⟩ :=
    monthIndex_ofDayNumber.mp (Eq.refl (ofDayNumber m).monthIndex)
  obtain ⟨-, hhigh⟩ :=
    monthIndex_ofDayNumber.mp (Eq.refl (ofDayNumber n).monthIndex)
  have hlt :=
    monthStart_lt_iff.mp (Int.lt_of_le_of_lt (Int.le_trans hlow h) hhigh)
  omega

/-- A month later on the calendar is the next month, unless that month is too
short: then it is the month after it. -/
theorem monthIndex_addMonth {d : Date} (hd : d.exists? = true) :
    d.addMonth.monthIndex = if d.day ≤ daysOfMonth (d.monthIndex + 1) then
      d.monthIndex + 1 else d.monthIndex + 2 := by
  have hday := day_between hd
  have hthis := daysOfMonth_between d.monthIndex
  have hnext := daysOfMonth_between (d.monthIndex + 1)
  have hafter := daysOfMonth_between (d.monthIndex + 2)
  have hend := monthStart_succ (d.monthIndex + 1)
  have hend' := monthStart_succ (d.monthIndex + 1 + 1)
  have htwo : d.monthIndex + 1 + 1 = d.monthIndex + 2 := by omega
  rw [htwo] at hend hend'
  unfold addMonth
  rw [monthIndex_ofDayNumber, nextMonth_eq hd, ← monthStart]
  split
  · rw [htwo]
    omega
  · omega

end Date
end TickRelay
