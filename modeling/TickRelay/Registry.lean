import TickRelay.Fault
import TickRelay.Symbol
import TickRelay.Table

/-!
# Subscriptions

The registry knows the subscribers of every symbol, in normal form. The first
subscriber of a symbol leads to a request to the provider, and the last one
that leaves may lead to its withdrawal.

**Algorithm.** A change happens in two steps. The first changes the subscribers
and tells whether the symbol is new or idle. The second, later and one at a
time, looks at the subscribers again before it calls the provider:
`callsAfterJoin` and `callsAfterLeave`.
-/

namespace TickRelay

/-- A call to the provider. -/
inductive ProviderCall where
  | connect
  | subscribe (symbol : Bytes)
  | unsubscribe (symbol : Bytes)
  deriving DecidableEq, Repr

namespace ProviderCall

/-- The call in words. -/
def text : ProviderCall → Bytes
  | connect => utf8 "connect"
  | subscribe s => utf8 "subscribe " ++ s
  | unsubscribe s => utf8 "unsubscribe " ++ s

end ProviderCall

/-- The subscribers of each symbol. A symbol without subscribers has no
entry. -/
structure Registry where
  subs : Table (List Bytes) := .empty

namespace Registry

/-- The fault of a symbol with an empty normal form. -/
def symbolRequired : Fault := .of (.subscription (utf8 "symbol is required"))

/-- The subscribers of a symbol in normal form. -/
def clients (r : Registry) (symbol : Bytes) : List Bytes :=
  (r.subs.get? symbol).getD []

/-- The subscribers of a symbol. -/
def subscribers (r : Registry) (symbol : Bytes) : List Bytes :=
  r.clients (Symbol.normalize symbol)

/-- The symbols with subscribers. -/
def symbols (r : Registry) : List Bytes := r.subs.keys

/-- Whether a symbol in normal form has subscribers. -/
def hasSubscribers (r : Registry) (symbol : Bytes) : Bool :=
  r.subs.contains symbol

/-- Adds a client to a symbol in normal form; tells whether the symbol is
new. -/
def join (r : Registry) (client symbol : Bytes) : Registry × Bool :=
  match r.subs.get? symbol with
  | none => (⟨r.subs.set symbol [client]⟩, true)
  | some cs =>
    (⟨r.subs.set symbol (if cs.contains client then cs else cs ++ [client])⟩,
      false)

/-- Takes a client off a symbol in normal form; tells whether the symbol became
idle. -/
def leave (r : Registry) (client symbol : Bytes) : Registry × Bool :=
  match r.subs.get? symbol with
  | none => (r, false)
  | some cs =>
    if !cs.contains client then (r, false)
    else
      let rest := cs.filter (· ≠ client)
      if rest.isEmpty then (⟨r.subs.erase symbol⟩, true)
      else (⟨r.subs.set symbol rest⟩, false)

/-- The symbols of a client. -/
def symbolsOf (r : Registry) (client : Bytes) : List Bytes :=
  (r.subs.entries.filter fun e => e.2.contains client).map (·.1)

/-- Takes a client off all its symbols: the registry afterwards, the symbols,
and those of them that became idle. -/
def leaveAll (r : Registry) (client : Bytes) :
    Registry × List Bytes × List Bytes :=
  let removed := r.symbolsOf client
  let idle := removed.filter fun s => (r.clients s).all (· = client)
  let after := removed.foldl (fun r s => (r.leave client s).1) r
  (after, removed, idle)

/-- What is asked of the provider after a symbol was new. -/
def callsAfterJoin (r : Registry) (symbol : Bytes) : List ProviderCall :=
  if r.hasSubscribers symbol then [.connect, .subscribe symbol] else []

/-- What is asked of the provider after a symbol became idle. -/
def callsAfterLeave (r : Registry) (releaseOnIdle : Bool) (symbol : Bytes) :
    List ProviderCall :=
  if releaseOnIdle && !r.hasSubscribers symbol then [.unsubscribe symbol]
  else []

end Registry
end TickRelay
