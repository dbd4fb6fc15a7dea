import TickRelay.Feed.Frame
import TickRelay.Registry

/-!
# The feed

The feed client keeps the subscription list and, while it is connected, a
socket to the provider. The list has the symbols that are subscribed with the
provider, each once, in the order in which they were added. Configured symbols
are brought to normal form; later ones are taken as they are. A change of the
list is sent at once when there is a socket; a new session sends the whole
list.

**Algorithm.** What happens under the lock of the client is one step:
`openSession` sets the socket and copies the list, `subscribe` and
`unsubscribe` change the list and look at the socket. The frames are written
afterwards, by whoever made the step.

**Results.** `handle` turns a frame of the provider into a tick for the
observers, or drops it.
-/

namespace TickRelay
namespace Feed

/-- The symbols in order. -/
abbrev Symbols := List Bytes

namespace Symbols

/-- Adds a symbol; tells whether it was new. -/
def add (l : Symbols) (symbol : Bytes) : Symbols × Bool :=
  if l.contains symbol then (l, false) else (l ++ [symbol], true)

/-- Takes a symbol out; tells whether it was there. -/
def remove (l : Symbols) (symbol : Bytes) : Symbols × Bool :=
  if l.contains symbol then (l.erase symbol, true) else (l, false)

/-- The list of the configured symbols. -/
def ofConfigured (symbols : List Bytes) : Symbols :=
  symbols.foldl (fun l s => (add l (Symbol.normalize s)).1) []

end Symbols

/-- A request to the provider. -/
inductive Request where
  | subscribe (symbol : Bytes)
  | unsubscribe (symbol : Bytes)
  | history (symbol start stop : Bytes)
  deriving DecidableEq, Repr

namespace Request

/-- A member that is left out when it is empty. -/
def optionalMember (name : String) (value : Bytes) : List (Bytes × Bytes) :=
  if value = [] then [] else [(utf8 name, Json.quote value)]

/-- The members of a request. -/
def members : Request → List (Bytes × Bytes)
  | subscribe s =>
    [(utf8 "type", Json.quote (utf8 "subscribe")),
      (utf8 "symbol", Json.quote s)]
  | unsubscribe s =>
    [(utf8 "type", Json.quote (utf8 "unsubscribe")),
      (utf8 "symbol", Json.quote s)]
  | history s start stop =>
    [(utf8 "type", Json.quote (utf8 "history")),
      (utf8 "symbol", Json.quote s)] ++
      optionalMember "from" start ++ optionalMember "to" stop

/-- The frame of a request. -/
def encode (r : Request) : Bytes := Json.writeObject r.members

end Request

/-- The state of the client. -/
structure Client where
  symbols : Symbols := []
  /-- Whether a connection was asked for. -/
  isWanted : Bool := false
  /-- Whether the client was stopped for good. -/
  isStopped : Bool := false
  /-- The number of the current connection. -/
  socket : Option Nat := none
  /-- Ticks published so far. -/
  received : Nat := 0
  deriving DecidableEq

namespace Client

/-- A client for the configured symbols. -/
def ofConfigured (symbols : List Bytes) : Client :=
  { symbols := .ofConfigured symbols }

/-- Asks for a connection. -/
def connect (c : Client) : Client := { c with isWanted := true }

/-- Stops the client for good. -/
def disconnect (c : Client) : Client := { c with isStopped := true }

/-- Whether there is a socket. -/
def isConnected (c : Client) : Bool := c.socket.isSome

/-- A session starts on a connection: the symbols that it has to subscribe. -/
def openSession (c : Client) (connection : Nat) : Client × List Bytes :=
  ({ c with socket := some connection }, c.symbols)

/-- A session ends. -/
def closeSession (c : Client) : Client := { c with socket := none }

/-- Adds a symbol; the request to send, if any. -/
def subscribe (c : Client) (symbol : Bytes) :
    Client × Option (Nat × Request) :=
  let (symbols, isNew) := Symbols.add c.symbols symbol
  ({ c with symbols },
    if isNew then c.socket.map fun s => (s, .subscribe symbol) else none)

/-- Takes a symbol out; the request to send, if any. -/
def unsubscribe (c : Client) (symbol : Bytes) :
    Client × Option (Nat × Request) :=
  let (symbols, wasThere) := Symbols.remove c.symbols symbol
  ({ c with symbols },
    if wasThere then c.socket.map fun s => (s, .unsubscribe symbol) else none)

/-- The failure of a request that needs a connection. -/
def notConnected : Fault :=
  (Fault.ofText (utf8 "feed not connected")).within (.connection (utf8 "feed"))

/-- Asks for the history of a symbol. -/
def history (c : Client) (symbol start stop : Bytes) :
    Except Fault (Nat × Request) :=
  match c.socket with
  | none => .error notConnected
  | some s => .ok (s, .history (Symbol.normalize symbol) start stop)

/-- A frame of the provider: the tick to publish, if it holds one. -/
def handle (c : Client) (clock : Instant) (frame : Bytes) :
    Client × Option (Tick × Channel) :=
  match Frame.parse clock frame with
  | .error _ => (c, none)
  | .ok (t, channel) =>
    ({ c with received := c.received + 1 }, some (t, channel))

/-- A call of the registry: the request to send, if any. -/
def call (c : Client) : ProviderCall → Client × Option (Nat × Request)
  | .connect => (c.connect, none)
  | .subscribe s => c.subscribe s
  | .unsubscribe s => c.unsubscribe s

end Client
end Feed
end TickRelay
