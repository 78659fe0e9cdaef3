/-!
# Hexadecimal digits

Bytes are shown as two hexadecimal digits each, in lower case in dumps and in upper case in
messages; larger numbers are shown without padding.

## Main definitions

* `Hex.digit`: the digit of a value below sixteen, in either case
* `Hex.ofByte`, `Hex.ofBytes`: two digits a byte
* `Hex.ofNat`: the shortest lower-case form of a number
-/

namespace StreamLexer.Hex

/-- Letter case of the digits above nine. -/
inductive Case where
  | lower
  | upper
deriving DecidableEq, Repr

/-- The digit of the value `n % 16`. -/
def digit (shape : Case) (n : Nat) : Char :=
  let n := n % 16
  if n < 10 then Char.ofNat ('0'.toNat + n)
  else match shape with
    | .lower => Char.ofNat ('a'.toNat + (n - 10))
    | .upper => Char.ofNat ('A'.toNat + (n - 10))

/-- The two digits of a byte. -/
def ofByte (shape : Case) (b : UInt8) : List Char :=
  [digit shape (b.toNat / 16), digit shape b.toNat]

/-- The lower-case digits of a byte string, two a byte. -/
def ofBytes (bytes : List UInt8) : String :=
  String.ofList (bytes.flatMap (ofByte .lower))

/-- The lower-case digits of a number, without leading zeros. -/
def ofNat (n : Nat) : String :=
  String.ofList (Nat.toDigits 16 n)

/-- The value of a hexadecimal digit of either case. -/
def value? (c : UInt8) : Option Nat :=
  let n := c.toNat
  if 48 ≤ n ∧ n ≤ 57 then some (n - 48)
  else if 97 ≤ n ∧ n ≤ 102 then some (n - 87)
  else if 65 ≤ n ∧ n ≤ 70 then some (n - 55)
  else none

end StreamLexer.Hex
