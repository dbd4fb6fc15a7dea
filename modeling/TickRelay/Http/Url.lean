import TickRelay.Json.Text

/-!
# Paths and queries

**Results.** `cleanPath` removes empty, `.` and `..` segments of a path and
keeps a closing slash. `escapePath` writes a path as part of a location.
`queryValue?` is the first value of a key; pairs with a semicolon or a bad
escape do not count.
-/

namespace TickRelay
namespace Http

/-- Resolves one segment against the segments before it, last one first. -/
def resolve (above : List Bytes) (segment : Bytes) : List Bytes :=
  if segment = [] ∨ segment = utf8 "." then above
  else if segment = utf8 ".." then above.tail
  else segment :: above

/-- The path without superfluous segments. -/
def cleanPath (p : Bytes) : Bytes :=
  let segments := ((Bytes.split 47 p).foldl resolve []).reverse
  let path := 47 :: Bytes.join [47] segments
  if p.getLast? = some 47 ∧ segments ≠ [] then path ++ [47] else path

/-- A letter or a digit. -/
def isAlphanumeric (b : UInt8) : Bool :=
  Bytes.isDigit b || (65 ≤ b && b ≤ 90) || (97 ≤ b && b ≤ 122)

/-- A byte that stands for itself in a path. -/
def isPlainInPath (b : UInt8) : Bool :=
  isAlphanumeric b || (utf8 "-_.~$&+,/:;=@").contains b

/-- A path as part of a location. -/
def escapePath (p : Bytes) : Bytes :=
  p.flatMap fun b =>
    if isPlainInPath b then [b]
    else [37, Hex.capital (b.toNat / 16), Hex.capital (b.toNat % 16)]

/-- A location in ASCII: other bytes are escaped with small digits. -/
def asciiLocation (s : Bytes) : Bytes :=
  s.flatMap fun b =>
    if b < 128 then [b] else 37 :: Hex.fixed 2 b.toNat

/-- A text as part of a page. -/
def escapeMarkup (s : Bytes) : Bytes :=
  s.flatMap fun b =>
    if b = 38 then utf8 "&amp;" else if b = 60 then utf8 "&lt;"
    else if b = 62 then utf8 "&gt;" else if b = 34 then utf8 "&#34;"
    else if b = 39 then utf8 "&#39;" else [b]

/-- A key or value of a query: plus is a blank, and a percent sign starts an
escape. -/
def unescapeQuery? : Bytes → Option Bytes
  | [] => some []
  | 37 :: a :: b :: s => do
    let x ← Hex.value? a
    let y ← Hex.value? b
    let rest ← unescapeQuery? s
    some (UInt8.ofNat (16 * x + y) :: rest)
  | b :: s =>
    if b = 37 then none
    else (unescapeQuery? s).map ((if b = 43 then 32 else b) :: ·)

/-- The key and value of a pair. -/
def queryPair? (pair : Bytes) : Option (Bytes × Bytes) :=
  if pair = [] ∨ pair.contains 59 then none
  else
    let (key, value) := Bytes.cut 61 pair
    match unescapeQuery? key, unescapeQuery? value with
    | some k, some v => some (k, v)
    | _, _ => none

/-- The first value of a key. -/
def queryValue? (query key : Bytes) : Option Bytes :=
  ((Bytes.split 38 query).filterMap queryPair?).lookup key

end Http
end TickRelay
