import TickRelay.Binary64.Text
import TickRelay.Text.Encoding
import TickRelay.Utf8

/-!
# Strings of JSON, and writing

**Input.** The bytes after an opening quote.

**Algorithm.** A machine that takes one byte at a time. Until the first
backslash a control byte is refused (except in member names); after it every
byte but quote and backslash stands for itself, so bytes that are no UTF-8 are
kept. An escape that denotes half of a surrogate pair waits for the escape
right after it: together they denote one character if they are a pair, and
otherwise each denotes its own, U+FFFD for a half.

**Results.** `readBody` gives the text up to the closing quote and what
follows; `quote` writes a text as a string, and is safe inside HTML and
JavaScript. `writeObject` and `writeArray` write without blanks, members in the
order given. Numbers have the fewest digits that read back; infinities and
not-a-number cannot be written.
-/

namespace TickRelay
namespace Json

/-- Where a string reader stands. -/
inductive TextState where
  /-- No escape so far. -/
  | plain
  /-- After an escape, or in a member name. -/
  | free
  /-- After a backslash. -/
  | escape
  /-- In the digits of a code: the surrogate before it, the digits owed and the
  value. -/
  | code (before : Option Nat) (owed : Nat) (value : Nat)
  /-- Right after a surrogate. -/
  | surrogate (value : Nat)
  /-- After a surrogate and a backslash. -/
  | surrogateEscape (value : Nat)
  deriving DecidableEq, Repr

/-- What one byte does to a string reader. -/
inductive TextStep where
  | refuse
  | close (out : Bytes)
  | next (state : TextState) (out : Bytes)

/-- Half of a surrogate pair. -/
def isSurrogate (n : Nat) : Bool := 0xD800 ≤ n && n ≤ 0xDFFF

/-- The text of a code; half a pair is U+FFFD. -/
def codeText (n : Nat) : Bytes :=
  Utf8.encode [if isSurrogate n then Utf8.replacement else Char.ofNat n]

/-- The text of a surrogate and the code after it. -/
def pairText (a b : Nat) : Bytes :=
  if 0xD800 ≤ a ∧ a ≤ 0xDBFF ∧ 0xDC00 ≤ b ∧ b ≤ 0xDFFF then
    codeText (0x10000 + (a - 0xD800) * 0x400 + (b - 0xDC00))
  else codeText a ++ codeText b

/-- The byte that a one-letter escape denotes. -/
def simpleEscape? (b : UInt8) : Option UInt8 :=
  if b = 34 ∨ b = 92 ∨ b = 47 then some b
  else if b = 98 then some 8
  else if b = 102 then some 12
  else if b = 110 then some 10
  else if b = 114 then some 13
  else if b = 116 then some 9
  else none

namespace TextState

/-- One byte. -/
def step : TextState → UInt8 → TextStep
  | plain, b =>
    if b = 34 then .close []
    else if b = 92 then .next escape []
    else if b < 32 then .refuse
    else .next plain [b]
  | free, b =>
    if b = 34 then .close []
    else if b = 92 then .next escape []
    else .next free [b]
  | escape, b =>
    if b = 117 then .next (code none 4 0) []
    else match simpleEscape? b with
      | some c => .next free [c]
      | none => .refuse
  | code before owed value, b =>
    match Hex.value? b with
    | none => .refuse
    | some h =>
      let v := 16 * value + h
      if 1 < owed then .next (code before (owed - 1) v) []
      else match before with
        | some a => .next free (pairText a v)
        | none =>
          if isSurrogate v then .next (surrogate v) []
          else .next free (codeText v)
  | surrogate a, b =>
    if b = 34 then .close (codeText a)
    else if b = 92 then .next (surrogateEscape a) []
    else .next free (codeText a ++ [b])
  | surrogateEscape a, b =>
    if b = 117 then .next (code (some a) 4 0) []
    else match simpleEscape? b with
      | some c => .next free (codeText a ++ [c])
      | none => .refuse

/-- Reads up to the closing quote; `acc` holds the text so far, last byte
first. -/
def run : TextState → Bytes → Bytes → Option (Bytes × Bytes)
  | _, _, [] => none
  | q, acc, b :: s =>
    match q.step b with
    | .refuse => none
    | .close out => some ((out.reverse ++ acc).reverse, s)
    | .next r out => run r (out.reverse ++ acc) s

end TextState

/-- A byte that stands for itself in any string. -/
def isPlain (b : UInt8) : Bool := b != 34 && b != 92 && decide (32 ≤ b)

/-- The text up to the closing quote of a string value, and what follows. -/
def readBody (s : Bytes) : Option (Bytes × Bytes) := TextState.plain.run [] s

/-- The same for a member name, in which control bytes are allowed. -/
def readNameBody (s : Bytes) : Option (Bytes × Bytes) :=
  TextState.free.run [] s

/-- The written form of one character of a string. -/
def quoteChar (c : Char) : Bytes :=
  let n := c.toNat
  if n = 34 ∨ n = 92 then [92, UInt8.ofNat n]
  else if n = 10 then utf8 "\\n"
  else if n = 13 then utf8 "\\r"
  else if n = 9 then utf8 "\\t"
  else if n < 32 ∨ n = 60 ∨ n = 62 ∨ n = 38 then
    utf8 "\\u" ++ Hex.fixed 4 n
  else if n = 0x2028 then utf8 "\\u2028"
  else if n = 0x2029 then utf8 "\\u2029"
  else String.utf8EncodeChar c

/-- The written form of a rune; a byte outside of all characters becomes
U+FFFD. -/
def quoteRune : Option Char → Bytes
  | some c => quoteChar c
  | none => utf8 "\\ufffd"

/-- A text as a string of JSON. -/
def quote (s : Bytes) : Bytes :=
  34 :: ((Utf8.runes s).flatMap quoteRune ++ [34])

/-- A member: its quoted name, a colon and the value. -/
def writeMember (m : Bytes × Bytes) : Bytes := quote m.1 ++ utf8 ":" ++ m.2

/-- An object of members whose values are written already. -/
def writeObject (members : List (Bytes × Bytes)) : Bytes :=
  123 :: (Bytes.join (utf8 ",") (members.map writeMember) ++ [125])

/-- An array of values that are written already. -/
def writeArray (values : List Bytes) : Bytes :=
  91 :: (Bytes.join (utf8 ",") values ++ [93])

/-- A finite number. -/
def writeFloat? (x : Binary64) : Option Bytes :=
  if x.isFinite then some x.shortestText else none

end Json
end TickRelay
