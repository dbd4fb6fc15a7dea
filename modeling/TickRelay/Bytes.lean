/-!
# Texts as bytes

Everything that reaches the relay from outside (frames, symbols, client ids,
configuration files) is a list of bytes that may or may not be valid UTF-8.
This module fixes that type and the few conversions that all formats share.

**Results.** `utf8` writes the characters of a string as bytes, `decimal` and
`signedDecimal` write numbers, `padLeft` and `padRight` fill a field to a
width.
-/

namespace TickRelay

/-- A text as it travels. -/
abbrev Bytes := List UInt8

/-- The bytes of a string. -/
def utf8 (s : String) : Bytes := s.toByteArray.data.toList

namespace Bytes

/-- The digit character of a number below ten. -/
def digit (n : Nat) : UInt8 := UInt8.ofNat (48 + n)

/-- Whether a byte is one of `0` to `9`. -/
def isDigit (b : UInt8) : Bool := 48 ≤ b && b ≤ 57

/-- The value of a digit character. -/
def digitValue (b : UInt8) : Nat := b.toNat - 48

/-- The number written by a run of digit characters. -/
def number (ds : Bytes) : Nat := ds.foldl (fun n b => 10 * n + digitValue b) 0

/-- The decimal digits of a number, most significant first. -/
def decimal (n : Nat) : Bytes :=
  (Nat.toDigits 10 n).map fun c => UInt8.ofNat c.toNat

/-- A number in decimal, with a minus sign when it is negative. -/
def signedDecimal (i : Int) : Bytes :=
  if i < 0 then 45 :: decimal i.natAbs else decimal i.natAbs

/-- A number in decimal, filled with zeros in front to at least `width`
digits. -/
def paddedDecimal (width n : Nat) : Bytes :=
  let ds := decimal n
  List.replicate (width - ds.length) 48 ++ ds

/-- Fills a text of `length` characters on the left with spaces. -/
def padLeft (width length : Nat) (s : Bytes) : Bytes :=
  List.replicate (width - length) 32 ++ s

/-- Fills a text of `length` characters on the right with spaces. -/
def padRight (width length : Nat) (s : Bytes) : Bytes :=
  s ++ List.replicate (width - length) 32

/-- Lower case of the ASCII capitals; every other byte stays. -/
def lower (b : UInt8) : UInt8 := if 65 ≤ b && b ≤ 90 then b + 32 else b

/-- Joins texts with a separator between two neighbours. -/
def join (sep : Bytes) : List Bytes → Bytes
  | [] => []
  | [s] => s
  | s :: rest => s ++ sep ++ join sep rest

/-- The parts of a text between separators. -/
def split (sep : UInt8) : Bytes → List Bytes
  | [] => [[]]
  | b :: s =>
    if b = sep then [] :: split sep s
    else match split sep s with
      | [] => [[b]]
      | first :: rest => (b :: first) :: rest

/-- What stands before the first separator, and after it. -/
def cut (sep : UInt8) (s : Bytes) : Bytes × Bytes :=
  (s.takeWhile (· != sep), (s.dropWhile (· != sep)).drop 1)

/-- Replaces a text from the left; `k` bytes of the last occurrence are still
to be dropped. -/
def replaceFrom (old new : Bytes) : Nat → Bytes → Bytes
  | _, [] => []
  | k + 1, _ :: s => replaceFrom old new k s
  | 0, b :: s =>
    if old.isPrefixOf (b :: s) then
      new ++ replaceFrom old new (old.length - 1) s
    else b :: replaceFrom old new 0 s

/-- Replaces every occurrence of a text that is not empty. -/
def replace (old new s : Bytes) : Bytes := replaceFrom old new 0 s

/-- Order by bytes, a text before its own extensions. -/
def le (a b : Bytes) : Bool := !decide (b < a)

/-- Texts in byte order. -/
def sort (xs : List Bytes) : List Bytes := xs.mergeSort le

end Bytes
end TickRelay
