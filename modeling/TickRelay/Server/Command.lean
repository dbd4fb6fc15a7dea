import TickRelay.Fault
import TickRelay.Json.Value
import TickRelay.Json.Text

/-!
# Commands of clients

A client sends commands as objects of JSON: subscribe or unsubscribe, with a
symbol. Anything else is answered by an error frame. A symbol of blanks alone
passes here and is refused by the registry.
-/

namespace TickRelay
namespace Server

/-- What a client asks for. -/
inductive Command where
  | subscribe (symbol : Bytes)
  | unsubscribe (symbol : Bytes)
  deriving DecidableEq, Repr

/-- A command before it is checked. -/
structure Request where
  kind : Bytes := []
  symbol : Bytes := []
  deriving DecidableEq, Repr

/-- Why a message is no command. -/
inductive CommandError where
  | malformed
  | unknown (kind : Bytes)
  | noSymbol
  deriving DecidableEq, Repr

namespace CommandError

/-- The reason in words. -/
def reason : CommandError → Bytes
  | malformed => utf8 "invalid JSON"
  | unknown kind => utf8 "unknown command type " ++ kind
  | noSymbol => utf8 "symbol is required"

/-- The fault that is reported. -/
def fault (e : CommandError) : Fault := .of (.subscription e.reason)

end CommandError

namespace Request

/-- The members of a command. -/
def members : List (Json.Member Request) := [
  .of "type" (·.kind) ({ · with kind := · }) Json.text,
  .of "symbol" (·.symbol) ({ · with symbol := · }) Json.text]

/-- The request that a text holds. -/
def decode? (s : Bytes) : Option Request :=
  Json.decode (Json.record .loose members) {} s

end Request

namespace Command

/-- The command that a message holds. -/
def parse (s : Bytes) : Except CommandError Command :=
  match Request.decode? s with
  | none => .error .malformed
  | some r =>
    if r.kind = utf8 "subscribe" then
      if r.symbol = [] then .error .noSymbol else .ok (.subscribe r.symbol)
    else if r.kind = utf8 "unsubscribe" then
      if r.symbol = [] then .error .noSymbol else .ok (.unsubscribe r.symbol)
    else .error (.unknown r.kind)

end Command

/-- The frame that reports a fault to a client. -/
def errorFrame (f : Fault) (client : Bytes) : Bytes :=
  Json.writeObject [
    (utf8 "type", Json.quote (utf8 "error")),
    (utf8 "code", Bytes.decimal f.code),
    (utf8 "message", Json.quote f.text),
    (utf8 "clientId", Json.quote client)]

end Server
end TickRelay
