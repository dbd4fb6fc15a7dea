import TickRelay.Bytes

/-!
# Bytes as digits

A byte is two digits of base sixteen, the higher one first. Digits above nine
are letters, read in both cases. In base 64 three bytes become four characters
of an alphabet; a shorter last group is filled with `=`.

**Results.** `Hex.encode` writes bytes in small letters and `Hex.decode` reads
pairs of digits; `Text.base64` writes bytes in base 64.
-/

namespace TickRelay

namespace Hex

/-- A digit in small letters. -/
def digit (n : Nat) : UInt8 := UInt8.ofNat (if n < 10 then 48 + n else 87 + n)

/-- A digit in capital letters. -/
def capital (n : Nat) : UInt8 :=
  UInt8.ofNat (if n < 10 then 48 + n else 55 + n)

/-- The value of a digit. -/
def value? (b : UInt8) : Option Nat :=
  if 48 ≤ b && b ≤ 57 then some (b.toNat - 48)
  else if 97 ≤ b && b ≤ 102 then some (b.toNat - 87)
  else if 65 ≤ b && b ≤ 70 then some (b.toNat - 55)
  else none

/-- A number with a fixed count of digits. -/
def fixed : Nat → Nat → Bytes
  | 0, _ => []
  | k + 1, n => fixed k (n / 16) ++ [digit (n % 16)]

/-- The digits of bytes. -/
def encode (s : Bytes) : Bytes := s.flatMap fun b => fixed 2 b.toNat

/-- The bytes of digits, as far as there are pairs of digits. -/
def decode : Bytes → Bytes
  | a :: b :: s =>
    match value? a, value? b with
    | some x, some y => UInt8.ofNat (16 * x + y) :: decode s
    | _, _ => []
  | _ => []

end Hex

namespace Text

/-- The character of a number below 64. -/
def base64Digit (n : Nat) : UInt8 :=
  if n < 26 then UInt8.ofNat (65 + n)
  else if n < 52 then UInt8.ofNat (71 + n)
  else if n < 62 then UInt8.ofNat (n - 4)
  else if n = 62 then 43 else 47

/-- Bytes in base 64. -/
def base64 : Bytes → Bytes
  | [] => []
  | [a] =>
    let n := a.toNat * 16
    [base64Digit (n / 64), base64Digit (n % 64), 61, 61]
  | [a, b] =>
    let n := (a.toNat * 256 + b.toNat) * 4
    [base64Digit (n / 4096), base64Digit (n / 64 % 64),
      base64Digit (n % 64), 61]
  | a :: b :: c :: s =>
    let n := (a.toNat * 256 + b.toNat) * 256 + c.toNat
    base64Digit (n / 262144) :: base64Digit (n / 4096 % 64) ::
      base64Digit (n / 64 % 64) :: base64Digit (n % 64) :: base64 s

end Text

end TickRelay
