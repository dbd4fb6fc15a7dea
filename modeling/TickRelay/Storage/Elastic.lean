import TickRelay.Fault
import TickRelay.Http.Status
import TickRelay.Text.Encoding
import TickRelay.Tick

/-!
# Ticks in Elasticsearch

A batch is one bulk request: for every tick a line with the action `create` and
a line with the document. A tick that cannot be written spoils its batch. The
same request is sent up to three times while the server answers that it is
unavailable. Only status 200 is success; what the answer says about single
documents is not read.
-/

namespace TickRelay

namespace ZonedTime

/-- The written form as a string of JSON, for years of four digits and offsets
of less than a day. -/
def json? (z : ZonedTime) : Option Bytes :=
  let year := z.civil.date.year
  if 0 ≤ year ∧ year ≤ 9999 ∧ z.offset.natAbs < 86400 then
    some (Json.quote z.text)
  else none

end ZonedTime

namespace Storage
namespace Elastic

/-- The name of the storage. -/
def name : Bytes := utf8 "elastic_search"

/-- Where ticks go, and who sends them. -/
structure Account where
  index : Bytes := []
  user : Bytes := []
  password : Bytes := []
  deriving DecidableEq, Repr

/-- A request to the server. -/
structure Request where
  method : Bytes
  path : Bytes
  authorization : Option Bytes
  body : Bytes
  deriving DecidableEq, Repr

/-- The answer of the server to a bulk request: its status, and for each
document whether it was created. -/
structure Answer where
  status : Nat
  created : List Bool := []
  deriving DecidableEq, Repr

/-- The action line. -/
def action : Bytes := utf8 "\x7b\"create\":\x7b\x7d\x7d\n"

/-- The document of a tick. -/
def document? (clock : Instant) (createdAt : ZonedTime) (t : Tick) :
    Option Bytes := do
  let price ← Json.writeFloat? t.price
  let volume ← Json.writeFloat? t.volume
  let timestamp ← (ZonedTime.utc (t.time clock)).json?
  let created ← createdAt.json?
  some (Json.writeObject [
    (utf8 "symbol", Json.quote t.symbol), (utf8 "price", price),
    (utf8 "volume", volume), (utf8 "timestamp", timestamp),
    (utf8 "created_at", created)])

/-- The two lines of a tick. -/
def lines? (clock : Instant) (createdAt : ZonedTime) (t : Tick) :
    Option Bytes :=
  (document? clock createdAt t).map fun d => action ++ d ++ utf8 "\n"

/-- The body of a bulk request. -/
def bulkBody? (clock : Instant) (createdAt : ZonedTime) (ticks : List Tick) :
    Option Bytes :=
  (ticks.mapM (lines? clock createdAt)).map List.flatten

/-- Who sends, when a user or a password is given. -/
def authorization (a : Account) : Option Bytes :=
  if a.user = [] ∧ a.password = [] then none
  else some (utf8 "Basic " ++ Text.base64 (a.user ++ utf8 ":" ++ a.password))

/-- The request of the connection check. -/
def ping (a : Account) : Request :=
  ⟨utf8 "HEAD", utf8 "/", authorization a, []⟩

/-- The bulk request with a body. -/
def bulk (a : Account) (body : Bytes) : Request where
  method := utf8 "POST"
  path := (if a.index = [] then [] else utf8 "/" ++ a.index) ++ utf8 "/_bulk"
  authorization := authorization a
  body := body

/-- Whether a status says that the server is unavailable for now. -/
def isTransient (status : Nat) : Bool :=
  status == 502 || status == 503 || status == 504

/-- Sends a request up to `attempts` times: the requests sent and the last
answer. The server answers attempt after attempt from a list; an answer that is
not listed is like the last one. -/
def send (r : Request) (fallback : Answer) :
    Nat → List Answer → List Request × Answer
  | 0, _ => ([], fallback)
  | n + 1, answers =>
    let a := answers.head?.getD fallback
    if isTransient a.status ∧ n ≠ 0 then
      let (rs, last) := send r fallback n answers.tail
      (r :: rs, last)
    else ([r], a)

/-- The failure that a status stands for. -/
def statusFault? (status : Nat) : Option Fault :=
  if status = 200 then none
  else
    some (.ofText (utf8 "code : " ++ Bytes.decimal status ++
      utf8 ", status : " ++ Bytes.decimal status ++ utf8 " " ++
      Http.statusText status))

/-- Why a batch is not committed. -/
inductive CommitError where
  /-- A tick of the batch cannot be written. -/
  | unwritable
  /-- The server answered with another status than 200. -/
  | refused (fault : Fault)
  deriving DecidableEq

/-- Commits a batch: the requests sent, and the outcome. -/
def commit (a : Account) (clock : Instant) (createdAt : ZonedTime)
    (ticks : List Tick) (fallback : Answer) (answers : List Answer) :
    List Request × Except CommitError Unit :=
  if ticks.isEmpty then ([], .ok ())
  else match bulkBody? clock createdAt ticks with
    | none => ([], .error .unwritable)
    | some body =>
      let (requests, last) := send (bulk a body) fallback 3 answers
      (requests, match statusFault? last.status with
        | none => .ok ()
        | some f => .error (.refused f))

end Elastic
end Storage
end TickRelay
