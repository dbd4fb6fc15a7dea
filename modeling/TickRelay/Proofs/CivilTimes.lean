import TickRelay.Calendar.Instant
import TickRelay.Proofs.CalendarMonths

/-!
# Instants and the fields of a clock

The fields of a clock give back the instant at which it shows them, and a clock
never shows a day that does not exist. The month of an instant never goes back,
and neither does the day while the month lasts.
-/

namespace TickRelay

/-- The fields are those of a clock on a day that exists. -/
structure DateTime.Proper (t : DateTime) : Prop where
  date : t.date.exists? = true
  hour : t.hour < 24
  minute : t.minute < 60
  second : t.second < 60
  nano : t.nano < 1000000000

theorem DateTime.civil_instant {t : DateTime} (ht : t.Proper) :
    t.instant.civil = t := by
  obtain ⟨hdate, hhour, hminute, hsecond, hnano⟩ := ht
  have hseconds :
      t.instant.seconds =
        (t.date.dayNumber - epochDay) * 86400 + t.hour * 3600 +
          t.minute * 60 + t.second := by
    simp only [Instant.seconds, DateTime.instant, nanosPerSecond]
    omega
  have hsub : t.instant.subsecond = t.nano := by
    simp only [Instant.subsecond, DateTime.instant, nanosPerSecond]
    omega
  have hday : t.instant.seconds / 86400 + epochDay = t.date.dayNumber := by
    omega
  have hrest :
      (t.instant.seconds % 86400).toNat =
        t.hour * 3600 + t.minute * 60 + t.second := by
    omega
  unfold Instant.civil
  dsimp only
  rw [hday, hrest, hsub, Date.ofDayNumber_dayNumber hdate]
  have hh : (t.hour * 3600 + t.minute * 60 + t.second) / 3600 = t.hour := by
    omega
  have hm :
      (t.hour * 3600 + t.minute * 60 + t.second) / 60 % 60 = t.minute := by
    omega
  have hs : (t.hour * 3600 + t.minute * 60 + t.second) % 60 = t.second := by
    omega
  rw [hh, hm, hs]

namespace Instant

theorem proper_civil (t : Instant) : t.civil.Proper := by
  obtain ⟨hdate, -⟩ := Date.ofDayNumber_spec (t.seconds / 86400 + epochDay)
  have hrest : (t.seconds % 86400).toNat < 86400 := by omega
  refine ⟨hdate, ?_, ?_, ?_, ?_⟩
  · simp only [civil]
    omega
  · simp only [civil]
    omega
  · simp only [civil]
    omega
  · simp only [civil, subsecond, nanosPerSecond]
    omega

theorem exists_date (t : Instant) : t.civil.date.exists? = true :=
  t.proper_civil.date

/-- The day number of the date of an instant. -/
theorem dayNumber_date (t : Instant) :
    t.civil.date.dayNumber = t.seconds / 86400 + epochDay :=
  (Date.ofDayNumber_spec _).2

theorem instant_civil (t : Instant) : t.civil.instant = t := by
  have hday := t.dayNumber_date
  cases t with
  | mk nanos =>
      simp only [civil, DateTime.instant, Instant.mk.injEq, seconds, subsecond,
        nanosPerSecond] at *
      omega

/-- The number of the month of an instant. -/
def month (t : Instant) : Int := t.civil.date.monthIndex

/-- The day of the month of an instant. -/
def day (t : Instant) : Nat := t.civil.date.day

theorem day_le (t : Instant) : t.day ≤ Date.daysOfMonth t.month :=
  (Date.day_between t.exists_date).2

theorem dayNumber_mono {t u : Instant} (h : t.nanos ≤ u.nanos) :
    t.civil.date.dayNumber ≤ u.civil.date.dayNumber := by
  simp only [dayNumber_date, seconds, nanosPerSecond]
  omega

theorem month_mono {t u : Instant} (h : t.nanos ≤ u.nanos) :
    t.month ≤ u.month := by
  have hmono := Date.monthIndex_mono (dayNumber_mono h)
  rw [Date.ofDayNumber_dayNumber t.exists_date,
    Date.ofDayNumber_dayNumber u.exists_date] at hmono
  exact hmono

theorem day_mono {t u : Instant} (h : t.nanos ≤ u.nanos)
    (hmonth : t.month = u.month) : t.day ≤ u.day := by
  have hdays := dayNumber_mono h
  rw [Date.dayNumber_eq t.exists_date, Date.dayNumber_eq u.exists_date]
    at hdays
  unfold month at hmonth
  unfold day
  rw [hmonth] at hdays
  omega

theorem date_addMonth (t : Instant) :
    t.addMonth.civil.date = t.civil.date.addMonth := by
  have hproper := t.proper_civil
  have hfields : DateTime.Proper { t.civil with
      date := t.civil.date.addMonth } :=
    ⟨(Date.ofDayNumber_spec _).1, hproper.hour, hproper.minute,
      hproper.second, hproper.nano⟩
  exact congrArg DateTime.date (DateTime.civil_instant hfields)

/-- A month later is the next month, or the one after it when the next one
lacks the day. -/
theorem month_addMonth (t : Instant) :
    t.addMonth.month = if t.day ≤ Date.daysOfMonth (t.month + 1) then
      t.month + 1 else t.month + 2 := by
  unfold month
  rw [date_addMonth, Date.monthIndex_addMonth t.exists_date]
  rfl

end Instant

namespace ZonedTime

theorem civil_utc (t : Instant) : (utc t).civil = t.civil := by
  cases t
  simp [civil, utc, Instant.shift]

theorem proper_civil (z : ZonedTime) : z.civil.Proper := Instant.proper_civil _

theorem exists_date (z : ZonedTime) : z.civil.date.exists? = true :=
  z.proper_civil.date

theorem instant_civil (z : ZonedTime) :
    z.civil.instant = z.instant.shift (z.offset * nanosPerSecond) :=
  Instant.instant_civil _

/-- The number of the month that a clock of the zone shows. -/
def month (z : ZonedTime) : Int := z.civil.date.monthIndex

theorem month_utc (t : Instant) : (utc t).month = t.month := by
  rw [month, civil_utc, Instant.month]

end ZonedTime

end TickRelay
