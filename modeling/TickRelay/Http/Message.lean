import TickRelay.Http.Status
import TickRelay.Http.Url

/-!
# Requests and answers

What a handler sees of a request, and the answers that are used in several
places.
-/

namespace TickRelay
namespace Http

/-- A request. -/
structure Request where
  method : Bytes
  path : Bytes
  query : Bytes := []
  deriving DecidableEq, Repr

/-- An answer. -/
structure Response where
  status : Nat
  headers : List (Bytes × Bytes) := []
  body : Bytes := []
  deriving DecidableEq, Repr

namespace Request

/-- Whether the request only reads. -/
def isGet (r : Request) : Bool := r.method = utf8 "GET"

end Request

namespace Response

/-- The content type of plain text. -/
def plainText : Bytes × Bytes :=
  (utf8 "Content-Type", utf8 "text/plain; charset=utf-8")

/-- An error with a line of text. -/
def error (status : Nat) (text : Bytes) : Response where
  status := status
  headers := [plainText, (utf8 "X-Content-Type-Options", utf8 "nosniff")]
  body := text ++ utf8 "\n"

/-- There is nothing under this path. -/
def notFound : Response := error 404 (utf8 "404 page not found")

/-- The method is not allowed. -/
def methodNotAllowed : Response := { status := 405 }

/-- A written JSON value; the body stays empty when it could not be written. -/
def json (value : Option Bytes) : Response where
  status := 200
  headers := [(utf8 "Content-Type", utf8 "application/json")]
  body := (value.map (· ++ utf8 "\n")).getD []

/-- Sends the client to another path, with the same query. Only a reader gets a
page. -/
def movedTo (r : Request) (path : Bytes) : Response :=
  let location := escapePath path ++ if r.query = [] then [] else 63 :: r.query
  let hasPage := r.isGet || r.method = utf8 "HEAD"
  { status := 301
    headers := (utf8 "Location", asciiLocation location) ::
      if hasPage then [(utf8 "Content-Type", utf8 "text/html; charset=utf-8")]
      else []
    body :=
      if r.isGet then
        utf8 "<a href=\"" ++ escapeMarkup location ++ utf8 "\">" ++
          statusText 301 ++ utf8 "</a>.\n\n"
      else [] }

end Response
end Http
end TickRelay
