/-!
# ASCII texts as bytes

Stored forms and grammars are spelled in ASCII: a text is as many bytes as it has characters, and a
number is its decimal digits.

## Main definitions

* `ascii`: the bytes of a text
* `Digits.isDigit`, `Digits.value`: decimal digits, and the number that they stand for
* `Digits.number?`: a byte string read as a number below a bound
* `Digits.ofNat`: the digits of a number
-/

namespace StreamLexer

/-- The bytes of an ASCII text. -/
def ascii (s : String) : List UInt8 := s.toList.map fun c => UInt8.ofNat c.toNat

namespace Digits

/-- Whether a byte is a decimal digit. -/
def isDigit (b : UInt8) : Bool := 0x30 ≤ b && b ≤ 0x39

/-- The number that decimal digits stand for, the first digit counting most. -/
def value (digits : List UInt8) : Nat := digits.foldl (fun n b => n * 10 + (b.toNat - 0x30)) 0

/-- Whether a byte string is one or more decimal digits. -/
def areDigits (bytes : List UInt8) : Bool := !bytes.isEmpty && bytes.all isDigit

/-- The number that a byte string of decimal digits stands for, if it is below `bound`. -/
def number? (bound : Nat) (bytes : List UInt8) : Option Nat :=
  if areDigits bytes then
    if value bytes < bound then some (value bytes) else none
  else none

/-- The digits of a number, without leading zeros. -/
def ofNat (n : Nat) : List UInt8 := (Nat.toDigits 10 n).map fun c => UInt8.ofNat c.toNat

end Digits

end StreamLexer
