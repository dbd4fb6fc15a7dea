import TickRelay.Bytes

/-!
# Faults

A fault is a cause together with the contexts it passed through on its way out,
outermost first. The message reads the contexts from the outside in. The code
that clients see depends on the whole chain: a refused admission outweighs a
refused subscription, and that outweighs a failed connection.
-/

namespace TickRelay

/-- What went wrong at the bottom. -/
inductive Cause where
  /-- A client connected too often. -/
  | rateLimit (client : Bytes)
  /-- A command that cannot be carried out. -/
  | subscription (reason : Bytes)
  /-- Anything else, in words. -/
  | message (text : Bytes)
  /-- A context that was given nothing to report. -/
  | missing
  deriving DecidableEq, Repr

/-- What a fault happened in. -/
inductive Context where
  /-- The connection of a client, or of the feed. -/
  | connection (client : Bytes)
  /-- The commit of a number of ticks to a storage. -/
  | storeWrite (storage : Bytes) (count : Int)
  /-- The reading of a message. -/
  | parse (source : Bytes)
  /-- Anything else, in words. -/
  | during (text : Bytes)
  deriving DecidableEq, Repr

/-- A cause and the contexts around it, outermost first. -/
structure Fault where
  contexts : List Context
  cause : Cause
  deriving DecidableEq, Repr

namespace Cause

/-- The words of a cause. -/
def text : Cause → Bytes
  | rateLimit client => utf8 "rate limit exceeded for client " ++ client
  | subscription reason => utf8 "subscription: " ++ reason
  | message s => s
  | missing => utf8 "<nil>"

end Cause

namespace Context

/-- The words before the colon. -/
def text : Context → Bytes
  | connection client => utf8 "connection " ++ client
  | storeWrite storage count =>
    storage ++ utf8 " commit of " ++ Bytes.signedDecimal count ++ utf8 " ticks"
  | parse source => utf8 "parse " ++ source ++ utf8 " message"
  | during s => s

/-- Whether the context is a connection. -/
def isConnection : Context → Bool
  | connection _ => true
  | _ => false

end Context

namespace Fault

/-- A fault without context. -/
def of (c : Cause) : Fault := ⟨[], c⟩

/-- A fault in words. -/
def ofText (s : Bytes) : Fault := of (.message s)

/-- The same fault in one more context. -/
def within (c : Context) (f : Fault) : Fault := ⟨c :: f.contexts, f.cause⟩

/-- The message: every context, then the cause, with colons between them. -/
def text (f : Fault) : Bytes :=
  f.contexts.foldr (fun c s => c.text ++ utf8 ": " ++ s) f.cause.text

/-- The fault inside of the outermost context, if something was reported
there. -/
def inner? (f : Fault) : Option Fault :=
  match f.contexts, f.cause with
  | [], _ | [_], .missing => none
  | _ :: rest, c => some ⟨rest, c⟩

/-- The code of a fault in a client's error frame. -/
def code (f : Fault) : Nat :=
  match f.cause with
  | .rateLimit _ => 1003
  | .subscription _ => 1002
  | _ => if f.contexts.any Context.isConnection then 1001 else 1000

end Fault
end TickRelay
