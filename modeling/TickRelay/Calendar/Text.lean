import TickRelay.Bytes
import TickRelay.Calendar.Instant

/-!
# Written times

**Input.** Timestamps of the form `YYYY-MM-DDThh:mm:ss[.fff]ZONE`.

**Algorithm.** `ZonedTime.parse?` reads field by field. It takes one digit for
the hour, a comma for the point, any number of fraction digits (all after the
ninth are dropped), and offsets up to 24 hours and 60 minutes. A date that does
not exist is refused.

**Results.** `ZonedTime.text` prints the same form: the fraction without
closing zeros, `Z` for offset zero. `DateTime.dateText` and
`DateTime.clockText` are its parts, used by the storages.
-/

namespace TickRelay

namespace Calendar

/-- A year with at least four digits. -/
def yearText (y : Int) : Bytes :=
  if y < 0 then 45 :: Bytes.paddedDecimal 4 y.natAbs
  else Bytes.paddedDecimal 4 y.natAbs

/-- Two digits. -/
def twoDigits (n : Nat) : Bytes := Bytes.paddedDecimal 2 n

/-- Cuts closing zeros off. -/
def dropZeros (ds : Bytes) : Bytes := (ds.reverse.dropWhile (· == 48)).reverse

/-- A point and the first `places` of nine fraction digits, without closing
zeros; nothing when all of them are zero. -/
def fractionText (places nano : Nat) : Bytes :=
  match dropZeros ((Bytes.paddedDecimal 9 nano).take places) with
  | [] => []
  | ds => 46 :: ds

/-- `Z`, or the offset as hours and minutes. -/
def zoneText (offset : Int) : Bytes :=
  if offset = 0 then utf8 "Z"
  else
    let minutes := offset.natAbs / 60
    (if offset < 0 then utf8 "-" else utf8 "+") ++
      twoDigits (minutes / 60) ++ utf8 ":" ++
      twoDigits (minutes % 60)

/-- One digit. -/
def digit? : Bytes → Option (Nat × Bytes)
  | b :: s => if Bytes.isDigit b then some (Bytes.digitValue b, s) else none
  | [] => none

/-- Two digits. -/
def two? (s : Bytes) : Option (Nat × Bytes) := do
  let (a, s) ← digit? s
  let (b, s) ← digit? s
  some (10 * a + b, s)

/-- One digit or two. -/
def oneOrTwo? (s : Bytes) : Option (Nat × Bytes) := do
  let (a, t) ← digit? s
  match digit? t with
  | some (b, u) => some (10 * a + b, u)
  | none => some (a, t)

/-- Four digits. -/
def four? (s : Bytes) : Option (Nat × Bytes) := do
  let (a, s) ← two? s
  let (b, s) ← two? s
  some (100 * a + b, s)

/-- One given byte. -/
def byte? (b : UInt8) : Bytes → Option Bytes
  | c :: s => if c = b then some s else none
  | [] => none

/-- A number within a bound. -/
def atMost? (n bound : Nat) : Option Nat := if n ≤ bound then some n else none

/-- A fraction of a second in nanoseconds, or zero when there is none. -/
def fraction (s : Bytes) : Nat × Bytes :=
  match s with
  | c :: t =>
    let ds := t.takeWhile Bytes.isDigit
    if (c = 46 ∨ c = 44) ∧ ds ≠ [] then
      let nine := ds.take 9
      (Bytes.number nine * Nat.pow 10 (9 - nine.length),
        t.dropWhile Bytes.isDigit)
    else (0, s)
  | [] => (0, s)

/-- The offset of a zone in seconds. -/
def zone? : Bytes → Option (Int × Bytes)
  | 90 :: s => some (0, s)
  | c :: s => do
    if c = 43 ∨ c = 45 then
      let (h, s) ← two? s
      let s ← byte? 58 s
      let (m, s) ← two? s
      let h ← atMost? h 24
      let m ← atMost? m 60
      let offset : Int := 3600 * h + 60 * m
      some (if c = 45 then -offset else offset, s)
    else none
  | [] => none

end Calendar

namespace Date

/-- `YYYY-MM-DD`. -/
def text (d : Date) : Bytes :=
  Calendar.yearText d.year ++ utf8 "-" ++ Calendar.twoDigits d.month ++
    utf8 "-" ++ Calendar.twoDigits d.day

end Date

namespace DateTime

/-- The date as `YYYY-MM-DD`. -/
def dateText (t : DateTime) : Bytes := t.date.text

/-- `hh:mm:ss` and the first `places` digits of the fraction. -/
def clockText (places : Nat) (t : DateTime) : Bytes :=
  Calendar.twoDigits t.hour ++ utf8 ":" ++ Calendar.twoDigits t.minute ++
    utf8 ":" ++ Calendar.twoDigits t.second ++
    Calendar.fractionText places t.nano

end DateTime

namespace ZonedTime

/-- The written form, to the nanosecond. -/
def text (z : ZonedTime) : Bytes :=
  z.civil.dateText ++ utf8 "T" ++ z.civil.clockText 9 ++
    Calendar.zoneText z.offset

/-- Reads a written time. -/
def parse? (s : Bytes) : Option ZonedTime := do
  let (year, s) ← Calendar.four? s
  let s ← Calendar.byte? 45 s
  let (month, s) ← Calendar.two? s
  let s ← Calendar.byte? 45 s
  let (day, s) ← Calendar.two? s
  let s ← Calendar.byte? 84 s
  let (hour, s) ← Calendar.oneOrTwo? s
  let s ← Calendar.byte? 58 s
  let (minute, s) ← Calendar.two? s
  let s ← Calendar.byte? 58 s
  let (second, s) ← Calendar.two? s
  let (nano, s) := Calendar.fraction s
  let (offset, s) ← Calendar.zone? s
  let hour ← Calendar.atMost? hour 23
  let minute ← Calendar.atMost? minute 59
  let second ← Calendar.atMost? second 59
  let date : Date := ⟨year, month, day⟩
  if s = [] ∧ date.exists? then
    let fields : DateTime := ⟨date, hour, minute, second, nano⟩
    some ⟨fields.instant.shift (-offset * nanosPerSecond), offset⟩
  else none

end ZonedTime

namespace Instant

/-- The written form in UTC. -/
def text (t : Instant) : Bytes := (ZonedTime.utc t).text

end Instant
end TickRelay
