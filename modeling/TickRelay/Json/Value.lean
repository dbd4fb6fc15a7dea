import TickRelay.Json.Skip
import TickRelay.Json.Text

/-!
# Reading values of JSON

**Input.** A text and the value so far.

**Algorithm.** A `ValueReader` overlays what it reads on the value it is given:
`null` leaves numbers, flags and records as they are, a record changes only the
members that are named, and a member that is named twice is read twice. Unknown
members are skipped with the checks of `skipValue`. `Room` bounds the nesting
of records and of skipped arrays and objects, and knows where the blocks end in
which a text arrives. A block that ends inside a string ends the search for
control bytes in it.

**Results.** `decode` reads a whole text, after which only blanks may follow,
or a zero byte and then anything; `decodeFirst` reads the first value of a text
that arrives in blocks and ignores the rest.
-/

namespace TickRelay
namespace Json

/-- How long a text is, which bounds the members of its arrays and objects, how
many levels may still open, and how many bytes arrive in one block. -/
structure Room where
  length : Nat
  depth : Nat
  /-- Zero when the text arrives at once. -/
  block : Nat := 0

namespace Room

/-- How much of the end of a text is there when its first byte is looked at. -/
def reach (room : Room) (s : Bytes) : Reach :=
  if room.block = 0 then none
  else some (room.block - (room.length - s.length) % room.block)

/-- One level deeper, if there is one. -/
def deeper? (room : Room) : Option Room :=
  match room.depth with
  | 0 => none
  | d + 1 => some { room with depth := d }

end Room

/-- The greatest number of nested levels. -/
def maxDepth : Nat := 10000

/-- Reads a value over an older one; gives the new value and the rest of the
text. -/
abbrev ValueReader (α : Type) := Room → α → Bytes → Option (α × Bytes)

/-- A blank between tokens. -/
def isSpace (b : UInt8) : Bool := b == 32 || b == 10 || b == 9 || b == 13

/-- The text from its first byte that is no blank. -/
def skipSpace (s : Bytes) : Bytes := s.dropWhile isSpace

/-- The next byte that is no blank, and what follows. -/
def token (s : Bytes) : Option (UInt8 × Bytes) :=
  match skipSpace s with
  | [] => none
  | c :: t => some (c, t)

/-- The rest of a text after a given beginning. -/
def literal (word : String) (s : Bytes) : Option Bytes :=
  (utf8 word).isPrefixOf? s

/-- A string after its opening quote. Control bytes are refused only where they
are there from the beginning. -/
def readText (room : Room) (s : Bytes) : Option (Bytes × Bytes) :=
  match readBody s with
  | some r => some r
  | none =>
    if (room.reach (34 :: s)).covers ((s.takeWhile isPlain).length + 2) then
      none
    else readNameBody s

/-- A string or `null`, which is the empty text. -/
def readString (room : Room) (s : Bytes) : Option (Bytes × Bytes) := do
  let (c, s) ← token s
  if c = 34 then readText room s
  else if c = 110 then
    let s ← literal "ull" s
    some ([], s)
  else none

/-- Items separated by commas, up to a closing byte. -/
def items {σ : Type} (item : σ → Bytes → Option (σ × Bytes)) (close : UInt8) :
    Nat → σ → Bytes → Option (σ × Bytes)
  | 0, _, _ => none
  | k + 1, st, s => do
    let (st, s) ← item st s
    let (c, s) ← token s
    if c = 44 then items item close k st s
    else if c = close then some (st, s)
    else none

/-- A member name and the colon after it, where `name` reads the name. -/
def readName (name : Bytes → Option (Bytes × Bytes)) (s : Bytes) :
    Option (Bytes × Bytes) := do
  let (key, s) ← name s
  let (c, s) ← token s
  if c = 58 then some (key, s) else none

/-- A quoted name in which control bytes are allowed. -/
def looseName (s : Bytes) : Option (Bytes × Bytes) := do
  let (c, s) ← token s
  if c = 34 then readNameBody s else none

/-- The text after a value that nothing reads; `depth` levels may
still open. -/
def skipValue (room : Room) : Nat → Bytes → Option Bytes
  | depth, s => do
    let (c, t) ← token s
    if c = 34 then (readText room t).map (·.2)
    else if c = 110 then literal "ull" t
    else if c = 116 then literal "rue" t
    else if c = 102 then literal "alse" t
    else if c = 45 ∨ Bytes.isDigit c then
      let reach := if isDelicate (c :: t) then room.reach (c :: t) else none
      skipNumber reach (c :: t)
    else match depth with
      | 0 => none
      | d + 1 =>
        if c = 91 then do
          let (e, rest) ← token t
          if e = 93 then some rest
          else
            let item := fun (_ : Unit) s => (skipValue room d s).map (((), ·))
            (items item 93 room.length () t).map (·.2)
        else if c = 123 then do
          let (e, rest) ← token t
          if e = 125 then some rest
          else if e = 34 then
            let item := fun (_ : Unit) s => do
              let (_, s) ← readName (readString room) s
              let s ← skipValue room d s
              some ((), s)
            (items item 125 room.length () t).map (·.2)
          else none
        else none

/-- A member of a record: its name, and the reader of its value. -/
structure Member (σ : Type) where
  name : Bytes
  read : ValueReader σ

namespace Member

/-- A member that reads one component of a record. -/
def of {σ α : Type} (name : String) (get : σ → α) (set : σ → α → σ)
    (value : ValueReader α) : Member σ :=
  ⟨utf8 name,
    fun room st s => (value room (get st) s).map fun r => (set st r.1, r.2)⟩

end Member

/-- The lower case of a character whose lower case is an ASCII letter; besides
the capitals of ASCII these are U+0130 and U+212A. -/
def asciiLower (c : Char) : Char :=
  if 65 ≤ c.toNat ∧ c.toNat ≤ 90 then Char.ofNat (c.toNat + 32)
  else if c.toNat = 0x130 then 'i'
  else if c.toNat = 0x212A then 'k'
  else c

/-- How the member names of a record are read and compared. -/
structure NameRule where
  read : Room → Bytes → Option (Bytes × Bytes)
  fold : Bytes → Bytes

namespace NameRule

/-- Quoted names, compared without regard to ASCII case. -/
def loose : NameRule := ⟨fun _ => looseName, fun s => s.map Bytes.lower⟩

/-- Names read as string values, compared in lower case. -/
def strict : NameRule :=
  ⟨readString, fun s => Utf8.encode ((Utf8.scalars s).map asciiLower)⟩

end NameRule

/-- The member that a name selects. -/
def select {σ : Type} (rule : NameRule) (members : List (Member σ))
    (key : Bytes) : Option (Member σ) :=
  members.find? fun m => rule.fold key == m.name.map Bytes.lower

/-- One member of a record; a name that selects none has its value skipped. -/
def readMember {σ : Type} (rule : NameRule) (members : List (Member σ))
    (room : Room) (st : σ) (s : Bytes) : Option (σ × Bytes) := do
  let (key, s) ← readName (rule.read room) s
  match select rule members key with
  | some m => m.read room st s
  | none => (skipValue room room.depth s).map ((st, ·))

/-- A record: an object, or `null`, which changes nothing. -/
def record {σ : Type} (rule : NameRule) (members : List (Member σ)) :
    ValueReader σ :=
  fun room st s => do
    let (c, s) ← token s
    if c = 123 then
      let (e, rest) ← token s
      if e = 125 then some (st, rest)
      else
        let inner ← room.deeper?
        items (readMember rule members inner) 125 room.length st s
    else if c = 110 then (literal "ull" s).map ((st, ·))
    else none

/-- A text. -/
def text : ValueReader Bytes := fun room _ s => readString room s

/-- A value that stays when `null` is read. -/
def orKeep {α : Type} (read : Room → Bytes → Option (α × Bytes)) :
    ValueReader α :=
  fun room old s => do
    let (c, t) ← token s
    if c = 110 then (literal "ull" t).map ((old, ·)) else read room (c :: t)

/-- An integer. -/
def integer : ValueReader Int64 := orKeep fun _ => readInteger

/-- A fractional number. -/
def float : ValueReader Binary64 :=
  orKeep fun room s => readFloat (room.reach s) s

/-- A flag. -/
def flag : ValueReader Bool :=
  orKeep fun _ s =>
    match literal "true" s with
    | some rest => some (true, rest)
    | none => (literal "false" s).map ((false, ·))

/-- A fractional number that may be missing; `null` makes it so. -/
def optionalFloat : ValueReader (Option Binary64) := fun room _ s => do
  let (c, t) ← token s
  if c = 110 then (literal "ull" t).map ((none, ·))
  else (readFloat (room.reach (c :: t)) (c :: t)).map fun r => (some r.1, r.2)

/-- A list of texts; `null` stands for no list. -/
def textList : ValueReader (Option (List Bytes)) := fun room _ s => do
  let (c, s) ← token s
  if c = 110 then (literal "ull" s).map ((none, ·))
  else if c = 91 then
    let (e, rest) ← token s
    if e = 93 then some (some [], rest)
    else
      let item := fun (acc : List Bytes) s =>
        (readString room s).map fun r => (r.1 :: acc, r.2)
      (items item 93 room.length [] s).map fun r => (some r.1.reverse, r.2)
  else none

/-- Whether a text may follow the value of a message. -/
def endsMessage (s : Bytes) : Bool :=
  match token s with
  | none => true
  | some (c, _) => c == 0

/-- The first value of a text that arrives in blocks, read over `old`. -/
def decodeFirst {α : Type} (block : Nat) (value : ValueReader α) (old : α)
    (s : Bytes) : Option (α × Bytes) :=
  value { length := s.length, depth := maxDepth, block } old s

/-- The only value of a text that arrives at once, read over `old`. -/
def decode {α : Type} (value : ValueReader α) (old : α) (s : Bytes) :
    Option α := do
  let (x, rest) ← decodeFirst 0 value old s
  if endsMessage rest then some x else none

end Json
end TickRelay
