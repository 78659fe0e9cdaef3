import StreamLexer.Text.Ascii
import StreamLexer.Text.Utf8

/-!
# Decimal numbers and doubles

A double is a whole number of some power of two. Reading a decimal takes the nearest double, the
even one of two; writing takes the fewest digits that read back, of those the nearest, the larger of
two, and never an exponent. Both are done in exact arithmetic on natural numbers.

## Main definitions

* `Decimal.Numeral`: what a written number says
* `Decimal.read?`: the double of a written number
* `Decimal.shortest`: the fewest digits that read back as a double
* `Decimal.write`: the written form of a double
-/

namespace StreamLexer.Decimal

open Digits (isDigit areDigits value)

/-- What a written number says. -/
inductive Numeral where
  /-- No number. -/
  | nan
  /-- A number beyond all others. -/
  | infinity
  /-- The digits, the first of which is not zero, times `10 ^ exponent`. -/
  | finite (digits : List UInt8) (exponent : Int)
deriving DecidableEq, Repr

/-- A sign, if there is one, and what follows: whether the sign is a minus sign, and the rest. -/
def sign : List UInt8 → Bool × List UInt8
  | 0x2D :: rest => (true, rest)
  | 0x2B :: rest => (false, rest)
  | rest => (false, rest)

/-- The number that the digits of an exponent stand for. Digits after those that reach 2^16 are
passed over. -/
def exponentValue (digits : List UInt8) : Nat :=
  digits.foldl (fun n b => if n < 0x10000 then n * 10 + (b.toNat - 0x30) else n) 0

/-- The exponent at the end of a number, with its sign; none written is zero. -/
def exponent? : List UInt8 → Option Int
  | [] => some 0
  | 0x65 :: rest =>
    let (negative, digits) := sign rest
    if areDigits digits then
      some (if negative then -(exponentValue digits : Int) else exponentValue digits)
    else none
  | _ => none

/-- A number without its sign, in lower case: digits with a point among or beside them, and an
exponent, or a word. -/
def numeral? (text : List UInt8) : Option Numeral :=
  if text = ascii "nan" then some .nan
  else if text = ascii "inf" ∨ text = ascii "infinity" then some .infinity
  else
    let whole := text.takeWhile isDigit
    let (part, rest) := match text.dropWhile isDigit with
      | 0x2E :: rest => (rest.takeWhile isDigit, rest.dropWhile isDigit)
      | rest => ([], rest)
    if whole.isEmpty && part.isEmpty then none
    else (exponent? rest).map fun e =>
      .finite ((whole ++ part).dropWhile (· == 0x30)) (e - part.length)

/-- A quotient rounded to the nearest whole number, half to the even one. -/
def roundDiv (n d : Nat) : Nat :=
  let quotient := n / d
  let twice := 2 * (n % d)
  if twice < d then quotient
  else if d < twice then quotient + 1
  else quotient + quotient % 2

/-- A quotient with its denominator scaled by a power of `base`, upwards or downwards. -/
def scaled (base n d : Nat) (s : Int) : Nat × Nat :=
  if 0 ≤ s then (n, d * Nat.pow base s.toNat) else (n * Nat.pow base (-s).toNat, d)

/-- The leading bit of a double's 53, which its written 52 leave out. -/
def leadingBit : Nat := 0x10000000000000

/-- The bits of the double nearest to the positive quotient `n / d`. -/
def bitsOfRatio (n d : Nat) : UInt64 :=
  let low := max ((n.log2 : Int) - (d.log2 : Int) - 53) (-1074)
  let (ln, ld) := scaled 2 n d low
  let q := if ld * (2 * leadingBit) ≤ ln then low + 1 else low
  let (qn, qd) := scaled 2 n d q
  let m := roundDiv qn qd
  let (m, q) := if m = 2 * leadingBit then (leadingBit, q + 1) else (m, q)
  if 971 < q then 0x7FF0000000000000
  else if m < leadingBit then UInt64.ofNat m
  else UInt64.ofNat ((q + 1075).toNat * leadingBit + (m - leadingBit))

/-- The bits of the double nearest to what a written number says. Numbers far out of range are
settled by their size, before any large power is taken. -/
def Numeral.bits : Numeral → UInt64
  | nan => 0x7FF8000000000000
  | infinity => 0x7FF0000000000000
  | finite digits exponent =>
    let size := exponent + digits.length
    if digits.isEmpty || size < -330 then 0
    else if 310 < size then 0x7FF0000000000000
    else if 0 ≤ exponent then bitsOfRatio (value digits * Nat.pow 10 exponent.toNat) 1
    else bitsOfRatio (value digits) (Nat.pow 10 (-exponent).toNat)

/-- The double of a written number, with at most one sign before it. -/
def read? (s : String) : Option Float :=
  let (negative, text) := sign (Utf8.encode (s.map Char.toLower))
  (numeral? text).map fun numeral =>
    Float.ofBits (if negative then numeral.bits ||| 0x8000000000000000 else numeral.bits)

/-- A positive finite double as a whole number of a power of two, given its bits. -/
def mantissa (bits : Nat) : Nat × Int :=
  let biased : Nat := bits / leadingBit % 2048
  let fraction : Nat := bits % leadingBit
  if biased = 0 then (fraction, -1074) else (leadingBit + fraction, (biased : Int) - 1075)

/-- The power of ten of the first digit of a positive quotient. -/
def magnitude (n d : Nat) : Int :=
  if d ≤ n then ((Nat.toDigits 10 (n / d)).length : Int) - 1
  else -(((List.range 400).find? fun k => d ≤ n * Nat.pow 10 k).getD 0 : Int)

/-- A positive double, with the ends of the interval of numbers that read as it, all in units of
one denominator. The ends belong to the interval if `closed`. -/
structure Interval where
  low : Nat
  value : Nat
  high : Nat
  denominator : Nat
  closed : Bool

/-- The interval of a positive finite double. Below a power of two the numbers stand twice as
close. -/
def interval (bits : Nat) : Interval :=
  let (m, q) := mantissa bits
  let below := if m = leadingBit ∧ -1074 < q then 1 else 2
  let (d, unit) := scaled 2 1 1 (q - 2)
  ⟨(4 * m - below) * unit, 4 * m * unit, (4 * m + 2) * unit, d, m % 2 == 0⟩

/-- The one of the two neighbours of the value among the multiples of `10 ^ s` that reads back and
is nearest, if any does. Of two that are as near, it is the larger. -/
def onGrid? (i : Interval) (s : Int) : Option Nat :=
  let (value, d) := scaled 10 i.value i.denominator s
  let (low, _) := scaled 10 i.low i.denominator s
  let (high, _) := scaled 10 i.high i.denominator s
  let inside (c : Nat) : Bool :=
    if i.closed then low ≤ c * d && c * d ≤ high else low < c * d && c * d < high
  let floor := value / d
  match inside floor, inside (floor + 1) with
  | true, true => some (if 2 * (value - floor * d) < d then floor else floor + 1)
  | true, false => some floor
  | false, true => some (floor + 1)
  | false, false => none

/-- The fewest digits that read back as a positive finite double, and the power of ten of the last
of them. -/
def shortest (bits : Nat) : Nat × Int :=
  let i := interval bits
  let first := magnitude i.value i.denominator
  let found := (List.range 17).findSome? fun (n : Nat) =>
    (onGrid? i (first - n)).map fun digits => (digits, first - (n : Int))
  found.getD (0, 0)

/-- Digits times a power of ten, without an exponent. -/
def positional (digits : Nat) (s : Int) : String :=
  let text := Nat.toDigits 10 digits
  if 0 ≤ s then String.ofList (text ++ List.replicate s.toNat '0')
  else
    let places := (-s).toNat
    let text := List.replicate (places + 1 - text.length) '0' ++ text
    let whole := text.take (text.length - places)
    let part := ((text.drop (text.length - places)).reverse.dropWhile (· == '0')).reverse
    String.ofList (if part.isEmpty then whole else whole ++ '.' :: part)

/-- The written form of a double: the fewest digits that read back, without an exponent. -/
def write (x : Float) : String :=
  let bits := x.toBits.toNat
  let size := bits % 0x8000000000000000
  let sign := if size = bits then "" else "-"
  if 0x7FF0000000000000 < size then "NaN"
  else if size = 0x7FF0000000000000 then sign ++ "inf"
  else if size = 0 then sign ++ "0"
  else
    let (digits, s) := shortest size
    sign ++ positional digits s

end StreamLexer.Decimal
