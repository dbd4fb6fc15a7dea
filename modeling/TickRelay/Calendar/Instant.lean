import TickRelay.Calendar.Date

/-!
# Instants and zones

An `Instant` counts nanoseconds from the first second of 1970, UTC. A
`ZonedTime` is an instant seen with an offset from UTC; its civil fields are
those of a clock that is ahead by the offset.
-/

namespace TickRelay

/-- A point in time, in nanoseconds from 1970-01-01T00:00:00Z. -/
structure Instant where
  nanos : Int
  deriving DecidableEq, Repr, Inhabited

/-- Nanoseconds in a second. -/
def nanosPerSecond : Int := 1000000000

/-- The day number of the first of January 1970. -/
def epochDay : Int := 719162

/-- A date and a time of day. -/
structure DateTime where
  date : Date
  hour : Nat
  minute : Nat
  second : Nat
  nano : Nat
  deriving DecidableEq, Repr

namespace DateTime

/-- The instant at which a UTC clock shows the fields. -/
def instant (t : DateTime) : Instant :=
  let s :=
    (t.date.dayNumber - epochDay) * 86400 + t.hour * 3600 +
      t.minute * 60 + t.second
  ⟨s * nanosPerSecond + t.nano⟩

end DateTime

namespace Instant

/-- Whole seconds from the start of 1970, rounded down. -/
def seconds (t : Instant) : Int := t.nanos / nanosPerSecond

/-- Nanoseconds into the second. -/
def subsecond (t : Instant) : Nat := (t.nanos % nanosPerSecond).toNat

/-- The fields of a UTC clock. -/
def civil (t : Instant) : DateTime :=
  let s := t.seconds
  let r := (s % 86400).toNat
  ⟨.ofDayNumber (s / 86400 + epochDay), r / 3600, r / 60 % 60,
    r % 60, t.subsecond⟩

/-- A later or earlier instant. -/
def shift (t : Instant) (nanos : Int) : Instant := ⟨t.nanos + nanos⟩

/-- Whether one instant is before another. -/
def before (t u : Instant) : Bool := t.nanos < u.nanos

/-- The same time of day, one month later by `Date.addMonth`. -/
def addMonth (t : Instant) : Instant :=
  { t.civil with date := t.civil.date.addMonth }.instant

end Instant

/-- An instant with an offset in seconds east of UTC. -/
structure ZonedTime where
  instant : Instant
  offset : Int
  deriving DecidableEq, Repr

namespace ZonedTime

/-- The fields of a clock of the zone. -/
def civil (z : ZonedTime) : DateTime :=
  (z.instant.shift (z.offset * nanosPerSecond)).civil

/-- An instant in the zone of UTC. -/
def utc (t : Instant) : ZonedTime := ⟨t, 0⟩

end ZonedTime
end TickRelay
