/-!
# Waiting before a reconnect

The wait before attempt `n` is drawn from the upper half of a ceiling that
doubles with every attempt and stops at a maximum. Durations are nanoseconds in
64 bits, and the doubling wraps; a product that is not between zero and the
maximum is replaced by the maximum.

**Results.** `Backoff.delay` is the wait for a number that was drawn,
`Backoff.delays` the interval of possible waits; `Backoff.coverage` says how
many of the waits that are drawn lie in a given interval.
-/

namespace TickRelay
namespace Feed

/-- How long to wait at first and at most. -/
structure Backoff where
  base : Int64
  max : Int64
  deriving DecidableEq, Repr

/-- How many of the waits lie in an interval. -/
inductive Coverage where
  | all
  | some
  | none
  deriving DecidableEq, Repr

namespace Backoff

/-- Nanoseconds in a second. -/
def second : Int64 := 1000000000

/-- The base in use: one second when none is given. -/
def effectiveBase (b : Backoff) : Int64 :=
  if b.base ≤ 0 then second else b.base

/-- The maximum in use, never below the base. -/
def effectiveMax (b : Backoff) : Int64 :=
  if b.max < b.effectiveBase then b.effectiveBase else b.max

/-- The longest wait before attempt `n`. -/
def ceiling (b : Backoff) (n : Int) : Int64 :=
  let k := n.toNat
  if k < 30 then
    let d := b.effectiveBase * Int64.ofInt (Nat.pow 2 k : Nat)
    if 0 < d ∧ d < b.effectiveMax then d else b.effectiveMax
  else b.effectiveMax

/-- The number of waits that one is drawn from before attempt `n`. -/
def choices (b : Backoff) (n : Int) : Int64 :=
  b.ceiling n - b.ceiling n / 2 + 1

/-- The wait before attempt `n` for a number that was drawn, from zero up to
the number of choices. -/
def delay (b : Backoff) (n : Int) (drawn : Int64) : Int64 :=
  b.ceiling n / 2 + drawn

/-- The shortest and the longest wait before attempt `n`. -/
def delays (b : Backoff) (n : Int) : Int64 × Int64 :=
  (b.delay n 0, b.delay n (b.choices n - 1))

/-- Whether `part` of `whole` equally likely waits are met: less than one in a
million is not. -/
def isMet (part whole : Nat) : Bool :=
  decide (0 < part) && decide (whole ≤ 1000000 * part)

/-- How many of the waits before attempt `n` lie between two durations, both
included. -/
def coverage (b : Backoff) (n : Int) (first last : Int) : Coverage :=
  let shortest := (b.delays n).1.toInt
  let longest := (b.delays n).2.toInt
  let whole := (longest - shortest + 1).toNat
  let low := if first < shortest then shortest else first
  let high := if longest < last then longest else last
  let inside := (high - low + 1).toNat
  if !isMet (whole - inside) whole then .all
  else if isMet inside whole then .some
  else .none

end Backoff
end Feed
end TickRelay
