import TickRelay.Table
import TickRelay.Tick

/-!
# Recent ticks

The cache keeps, for every symbol, the last ticks in the order of their
arrival: at most a given number of them, and after a sweep only those that
arrived within a given age.

**Results.** `add` appends and drops the oldest beyond the capacity; `sweep`
drops what is older than the age and forgets symbols that lose everything. A
symbol whose list was empty before the sweep stays.
-/

namespace TickRelay

/-- A tick and when it arrived. -/
structure Received where
  tick : Tick
  time : Instant
  deriving DecidableEq

/-- The cache. -/
structure Cache where
  maxTicks : Int64
  /-- Nanoseconds. -/
  maxAge : Int64
  symbols : Table (List Received) := .empty

namespace Cache

/-- What is kept of a symbol, oldest first. -/
def received (c : Cache) (symbol : Bytes) : List Received :=
  (c.symbols.get? symbol).getD []

/-- The ticks of a symbol, oldest first. -/
def ticks (c : Cache) (symbol : Bytes) : List Tick :=
  (c.received symbol).map (·.tick)

/-- The symbols, in byte order. -/
def sortedSymbols (c : Cache) : List Bytes := c.symbols.sortedKeys

/-- The last `n` members of a list. -/
def lastN {α : Type} (n : Nat) (l : List α) : List α := l.drop (l.length - n)

/-- Appends a tick to a symbol. -/
def add (now : Instant) (symbol : Bytes) (t : Tick) (c : Cache) : Cache :=
  { c with
    symbols :=
      c.symbols.set symbol
        (lastN c.maxTicks.toInt.toNat (c.received symbol ++ [⟨t, now⟩])) }

/-- Appends a tick to a symbol. There is no outcome when more ticks are beyond
the capacity than there are. -/
def add? (now : Instant) (symbol : Bytes) (t : Tick) (c : Cache) :
    Option Cache :=
  let l := c.received symbol ++ [⟨t, now⟩]
  (Capacity.surplus? c.maxTicks l.length).map fun n =>
    { c with symbols := c.symbols.set symbol (l.drop n) }

/-- With a capacity that is not negative a tick can always be appended. -/
theorem add?_of_nonneg (now : Instant) (symbol : Bytes) (t : Tick) {c : Cache}
    (h : 0 ≤ c.maxTicks) :
    c.add? now symbol t = some (c.add now symbol t) := by
  simp [add?, add, lastN, Capacity.surplus?_of_nonneg h]

/-- Appends a tick to its own symbol. -/
def handle (now : Instant) (t : Tick) (c : Cache) : Cache :=
  c.add now t.symbol t

/-- Before this time ticks are too old. -/
def cutoff (now : Instant) (c : Cache) : Instant := now.shift (-c.maxAge).toInt

/-- What a sweep leaves of a symbol. -/
def fresh (limit : Instant) (l : List Received) : List Received :=
  l.dropWhile fun r => r.time.before limit

/-- Drops the ticks that are too old: the cache afterwards, and how many were
dropped. -/
def sweep (now : Instant) (c : Cache) : Cache × Nat :=
  let limit := c.cutoff now
  let kept :=
    (c.symbols.filter fun _ l => l.isEmpty || !(fresh limit l).isEmpty).map
      (fresh limit)
  let size (t : Table (List Received)) : Nat :=
    t.entries.foldl (fun n e => n + e.2.length) 0
  ({ c with symbols := kept }, size c.symbols - size kept)

end Cache
end TickRelay
