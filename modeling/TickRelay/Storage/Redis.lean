import TickRelay.Fault
import TickRelay.Table
import TickRelay.Tick

/-!
# Latest ticks in Redis

Every committed tick becomes the value of its symbol's key and is published on
its symbol's channel. A batch is encoded whole before anything is sent, and its
commands are carried out in order, so that the last tick of a symbol stays.

**Results.** `commands?` is the command sequence of a batch; `Keyspace.run`
carries commands out; `latest` reads a symbol's tick back.
-/

namespace TickRelay
namespace Storage
namespace Redis

/-- The name of the storage. -/
def name : Bytes := utf8 "redis"

/-- How keys and channels are named, and how many seconds a value lives. -/
structure Naming where
  keyStart : Bytes := []
  channelStart : Bytes := []
  ttlSec : Int64 := 0
  deriving DecidableEq

/-- What is sent. A lifetime is in milliseconds; without one the value
stays. -/
inductive Command where
  | set (key value : Bytes) (lifetime : Option Nat)
  | publish (channel message : Bytes)
  deriving DecidableEq, Repr

/-- The lifetime of values: whole seconds, or, when the 64-bit nanoseconds have
wrapped, what is left of them in milliseconds. -/
def Naming.lifetime (n : Naming) : Option Nat :=
  let nanos := n.ttlSec * 1000000000
  if nanos ≤ 0 then none else some (max 1 (nanos.toInt / 1000000).toNat)

/-- The key of a symbol. -/
def Naming.key (n : Naming) (symbol : Bytes) : Bytes := n.keyStart ++ symbol

/-- The channel of a symbol. -/
def Naming.channel (n : Naming) (symbol : Bytes) : Bytes :=
  n.channelStart ++ symbol

/-- The two commands of a tick. -/
def tickCommands? (n : Naming) (t : Tick) : Option (List Command) :=
  t.encode?.map fun payload =>
    [.set (n.key t.symbol) payload n.lifetime,
      .publish (n.channel t.symbol) payload]

/-- The commands of a batch, if every tick can be encoded. -/
def commands? (n : Naming) (ticks : List Tick) : Option (List Command) :=
  (ticks.mapM (tickCommands? n)).map List.flatten

/-- A stored value and the milliseconds it has left. -/
structure Entry where
  value : Bytes
  left : Option Nat
  deriving DecidableEq, Repr

/-- The keys of a server. -/
abbrev Keyspace := Table Entry

namespace Keyspace

/-- Carries a command out. -/
def apply (k : Keyspace) : Command → Keyspace
  | .set key value lifetime => k.set key ⟨value, lifetime⟩
  | .publish _ _ => k

/-- Carries commands out in order. -/
def run (k : Keyspace) (cs : List Command) : Keyspace := cs.foldl apply k

/-- Lets time pass; entries whose time is used up are gone. -/
def forward (k : Keyspace) (millis : Nat) : Keyspace :=
  (k.filter fun _ e => e.left.all (millis < ·)).map fun e =>
    { e with left := e.left.map (· - millis) }

end Keyspace

/-- The messages that commands publish. -/
def published (cs : List Command) : List (Bytes × Bytes) :=
  cs.filterMap fun
    | .publish channel message => some (channel, message)
    | .set _ _ _ => none

/-- A server as seen through a client that may be closed. -/
structure Client where
  naming : Naming
  keys : Keyspace := .empty
  isOpen : Bool := true

/-- Why a batch is not committed. -/
inductive CommitError where
  | unwritable
  | closed
  deriving DecidableEq, Repr

/-- Why no tick is read. -/
inductive LatestError where
  | missing
  | malformed
  | closed
  deriving DecidableEq, Repr

/-- The failure of a closed client. -/
def closedFault : Fault := .ofText (utf8 "redis: client is closed")

namespace Client

/-- Commits a batch: the client afterwards, the commands carried out, and the
outcome. -/
def commit (c : Client) (ticks : List Tick) :
    Client × List Command × Except CommitError Unit :=
  match commands? c.naming ticks with
  | none => (c, [], .error .unwritable)
  | some cs =>
    if ticks.isEmpty then (c, [], .ok ())
    else if c.isOpen then
      ({ c with keys := Keyspace.run c.keys cs }, cs, .ok ())
    else (c, [], .error .closed)

/-- The last committed tick of a symbol. -/
def latest (c : Client) (symbol : Bytes) : Except LatestError Tick :=
  if c.isOpen then
    match c.keys.get? (c.naming.key symbol) with
    | none => .error .missing
    | some e =>
      match Tick.decode? e.value with
      | none => .error .malformed
      | some t => .ok t
  else .error .closed

/-- Closes the client; a second time is a failure. -/
def close (c : Client) : Client × Option Fault :=
  ({ c with isOpen := false }, if c.isOpen then none else some closedFault)

end Client
end Redis
end Storage
end TickRelay
