/-!
# The proleptic Gregorian calendar

**Input.** Day numbers, counted from the first day of year 1.

**Algorithm.** A cycle of 400 years has 146097 days. Inside a cycle, centuries,
four-year groups and years are taken off one after the other; the last century
of a cycle and the last year of a group are a day longer, so their counts stop
at three. Months are found by walking along their lengths.

**Results.** `dayNumber` and `ofDayNumber` convert between dates and day
numbers for all years, year 0 and negative years included; `nextMonth` is the
first day of the following month.
-/

namespace TickRelay

/-- A calendar date. -/
structure Date where
  year : Int
  month : Nat
  day : Nat
  deriving DecidableEq, Repr

namespace Date

/-- Whether a year has a 29th of February. -/
def isLeap (y : Int) : Bool := y % 4 == 0 && (y % 100 != 0 || y % 400 == 0)

/-- The lengths of the twelve months. -/
def monthLengths (y : Int) : List Nat :=
  [31, if isLeap y then 29 else 28, 31, 30, 31, 30, 31, 31, 30, 31, 30, 31]

/-- The length of a month; months that do not exist have no days. -/
def monthLength (y : Int) (m : Nat) : Nat :=
  if m = 0 then 0 else ((monthLengths y)[m - 1]?).getD 0

/-- Days from the first day of year 1 to the first day of a year. -/
def daysBeforeYear (y : Int) : Int :=
  let p := y - 1
  365 * p + p / 4 - p / 100 + p / 400

/-- Days from the first day of a year to the first day of a month. -/
def daysBeforeMonth (y : Int) (m : Nat) : Nat :=
  ((monthLengths y).take (m - 1)).foldl (· + ·) 0

/-- The day number of a date. -/
def dayNumber (d : Date) : Int :=
  daysBeforeYear d.year + daysBeforeMonth d.year d.month + d.day - 1

/-- The year of a day number, and the days gone of that year. -/
def splitYear (n : Int) : Int × Int :=
  let cycle := n / 146097
  let r := n % 146097
  let century := min (r / 36524) 3
  let r := r - 36524 * century
  let group := r / 1461
  let r := r % 1461
  let year := min (r / 365) 3
  (400 * cycle + 100 * century + 4 * group + year + 1, r - 365 * year)

/-- Walks along month lengths: the month reached and the days left in it. -/
def splitMonth : List Nat → Nat → Nat → Nat × Nat
  | [], m, r => (m, r)
  | [_], m, r => (m, r)
  | len :: rest, m, r =>
    if r < len then (m, r) else splitMonth rest (m + 1) (r - len)

/-- The date of a day number. -/
def ofDayNumber (n : Int) : Date :=
  let (y, r) := splitYear n
  let (m, d) := splitMonth (monthLengths y) 1 r.toNat
  ⟨y, m, d + 1⟩

/-- Whether the date exists. -/
def exists? (d : Date) : Bool :=
  1 ≤ d.day && d.day ≤ monthLength d.year d.month

/-- The first day of the month after the one of a date. -/
def nextMonth (d : Date) : Date :=
  if d.month = 12 then ⟨d.year + 1, 1, 1⟩ else ⟨d.year, d.month + 1, 1⟩

/-- The same day of the following month; when that month is too short, the
count goes on into the one after it. -/
def addMonth (d : Date) : Date :=
  ofDayNumber (d.nextMonth.dayNumber + (d.day - 1 : Nat))

end Date
end TickRelay
