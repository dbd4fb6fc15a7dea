import TickRelay.Table

/-!
# The pool of connections

The pool holds at most one connection per client. A second connection of a
client takes the place of the first, which the pool then closes. A connection
that ends by itself is taken out only if it is the one that is stored.

**Results.** `insert`, `remove`, `release` and `clear` are the changes of the
pool, each at once; they tell which connections are displaced. Counting and
closing happen afterwards.
-/

namespace TickRelay

/-- A connection: a number of its own and the client it belongs to. -/
structure Connection where
  key : Nat
  id : Bytes
  deriving DecidableEq, Repr

/-- The stored connections by client. -/
structure Pool where
  conns : Table Connection := .empty

namespace Pool

/-- The connection of a client. -/
def get? (p : Pool) (client : Bytes) : Option Connection := p.conns.get? client

/-- The number of stored connections. -/
def size (p : Pool) : Nat := p.conns.size

/-- Stores a connection; the one it displaces is told. -/
def insert (p : Pool) (client : Bytes) (c : Connection) :
    Pool × Option Connection :=
  (⟨p.conns.set client c⟩, p.get? client)

/-- Takes the connection of a client out. -/
def remove (p : Pool) (client : Bytes) : Pool × Option Connection :=
  (⟨p.conns.erase client⟩, p.get? client)

/-- Takes a connection out if it is stored under its own client; tells whether
it was. -/
def release (p : Pool) (c : Connection) : Pool × Bool :=
  if p.get? c.id = some c then (⟨p.conns.erase c.id⟩, true) else (p, false)

/-- Takes all connections out. -/
def clear (p : Pool) : Pool × List Connection :=
  ({}, p.conns.entries.map (·.2))

end Pool
end TickRelay
