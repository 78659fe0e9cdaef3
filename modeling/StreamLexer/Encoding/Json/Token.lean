import StreamLexer.Text.Ascii
import StreamLexer.Text.Hex
import StreamLexer.Text.Utf8

/-!
# The tokens of a JSON text

A JSON text is read byte by byte into tokens. Strings are kept as they are written, with only their
form checked: what they stand for, and whether that is text at all, is asked when it matters.
Whatever stands between blanks, marks and strings is a word, which has to be a literal or a number.

## Main definitions

* `Json.Token`: marks, literals, numbers and strings
* `Json.isNumber`: the form of a number
* `Json.tokens?`: the tokens of a byte string
* `Json.unescape?`: the text that a written string stands for
-/

namespace StreamLexer.Json

open Digits (isDigit areDigits)

/-- The tokens of a JSON text. Numbers and strings are kept as they are written. -/
inductive Token where
  | arrayOpen
  | arrayClose
  | objectOpen
  | objectClose
  | comma
  | colon
  | null
  | bool (value : Bool)
  | number (text : List UInt8)
  | string (raw : List UInt8)
deriving DecidableEq, Repr

/-- Whether a byte is a blank between tokens. -/
def isBlank (b : UInt8) : Bool := b == 0x20 || b == 0x09 || b == 0x0A || b == 0x0D

/-- The token of a byte that is one by itself. -/
def mark? (b : UInt8) : Option Token :=
  if b = 0x5B then some .arrayOpen
  else if b = 0x5D then some .arrayClose
  else if b = 0x7B then some .objectOpen
  else if b = 0x7D then some .objectClose
  else if b = 0x2C then some .comma
  else if b = 0x3A then some .colon
  else none

/-- Whether the rest of a number is nothing or an exponent. -/
def isExponent : List UInt8 → Bool
  | [] => true
  | e :: rest =>
    (e == 0x65 || e == 0x45) &&
      match rest with
      | sign :: digits => areDigits (if sign == 0x2B || sign == 0x2D then digits else rest)
      | [] => false

/-- Whether the rest of a number is a fraction and an exponent, either of which may be missing. -/
def isFraction : List UInt8 → Bool
  | point :: rest =>
    if point == 0x2E then
      !(rest.takeWhile isDigit).isEmpty && isExponent (rest.dropWhile isDigit)
    else isExponent (point :: rest)
  | [] => true

/-- Whether a word is a number: a minus sign or none, an integer without leading zeros, a fraction
or none, an exponent or none. -/
def isNumber (word : List UInt8) : Bool :=
  let magnitude := match word with
    | sign :: rest => if sign == 0x2D then rest else word
    | [] => []
  match magnitude with
  | [] => false
  | first :: rest =>
    if first == 0x30 then isFraction rest
    else isDigit first && isFraction (rest.dropWhile isDigit)

/-- The token of a word. -/
def word? (word : List UInt8) : Option Token :=
  if word = [0x6E, 0x75, 0x6C, 0x6C] then some .null
  else if word = [0x74, 0x72, 0x75, 0x65] then some (.bool true)
  else if word = [0x66, 0x61, 0x6C, 0x73, 0x65] then some (.bool false)
  else if isNumber word then some (.number word)
  else none

/-- What is being read: nothing, a word, or a string and where in it an escape stands. The bytes
read so far stand latest first. -/
inductive Reading where
  | gap
  | word (read : List UInt8)
  | string (read : List UInt8)
  | escape (read : List UInt8)
  | hex (read : List UInt8) (owed : Nat)
deriving DecidableEq, Repr

/-- The tokens read so far, latest first, and what is being read. -/
abbrev Lexed := List Token × Reading

/-- Reads a byte outside of words and strings. -/
def readGap (found : List Token) (b : UInt8) : Lexed :=
  if isBlank b then (found, .gap)
  else if b = 0x22 then (found, .string [])
  else match mark? b with
    | some token => (token :: found, .gap)
    | none => (found, .word [b])

/-- Whether a byte may follow a backslash by itself. -/
def isShortEscape (b : UInt8) : Bool :=
  [0x22, 0x5C, 0x2F, 0x62, 0x66, 0x6E, 0x72, 0x74].contains b

/-- Reads one byte, unless it has no place there. -/
def readByte? : Lexed → UInt8 → Option Lexed
  | (found, .gap), b => some (readGap found b)
  | (found, .word read), b =>
    if isBlank b || b == 0x22 || (mark? b).isSome then
      (word? read.reverse).map fun token => readGap (token :: found) b
    else some (found, .word (b :: read))
  | (found, .string read), b =>
    if b = 0x22 then some (.string read.reverse :: found, .gap)
    else if b = 0x5C then some (found, .escape (b :: read))
    else if b < 0x20 then none
    else some (found, .string (b :: read))
  | (found, .escape read), b =>
    if b = 0x75 then some (found, .hex (b :: read) 4)
    else if isShortEscape b then some (found, .string (b :: read))
    else none
  | (found, .hex read owed), b =>
    match Hex.value? b with
    | none => none
    | some _ =>
      if owed ≤ 1 then some (found, .string (b :: read)) else some (found, .hex (b :: read) (owed - 1))

/-- The tokens of a byte string, in order. -/
def tokens? (bytes : List UInt8) : Option (List Token) :=
  match bytes.foldlM readByte? ([], .gap) with
  | some (found, .gap) => some found.reverse
  | some (found, .word read) => (word? read.reverse).map fun token => (token :: found).reverse
  | _ => none

/-- The value of four hexadecimal digits. -/
def hex4? (a b c d : UInt8) : Option Nat := do
  return (((← Hex.value? a) * 16 + (← Hex.value? b)) * 16 + (← Hex.value? c)) * 16 + (← Hex.value? d)

/-- The bytes of a code point. -/
def codePoint (n : Nat) : List UInt8 := Utf8.encode (String.singleton (Char.ofNat n))

/-- The byte that a short escape stands for. -/
def shortEscape? (b : UInt8) : Option UInt8 :=
  if b = 0x22 ∨ b = 0x5C ∨ b = 0x2F then some b
  else if b = 0x62 then some 0x08
  else if b = 0x66 then some 0x0C
  else if b = 0x6E then some 0x0A
  else if b = 0x72 then some 0x0D
  else if b = 0x74 then some 0x09
  else none

/-- The bytes that a written string stands for. A surrogate has to be the first of a pair. -/
def unescapeBytes? : List UInt8 → Option (List UInt8)
  | [] => some []
  | 0x5C :: 0x75 :: a :: b :: c :: d :: rest =>
    match hex4? a b c d with
    | none => none
    | some high =>
      if 0xDC00 ≤ high ∧ high ≤ 0xDFFF then none
      else if 0xD800 ≤ high ∧ high ≤ 0xDBFF then
        match rest with
        | 0x5C :: 0x75 :: e :: f :: g :: h :: rest =>
          match hex4? e f g h with
          | none => none
          | some low =>
            if 0xDC00 ≤ low ∧ low ≤ 0xDFFF then
              let point := 0x10000 + (high - 0xD800) * 0x400 + (low - 0xDC00)
              (unescapeBytes? rest).map (codePoint point ++ ·)
            else none
        | _ => none
      else (unescapeBytes? rest).map (codePoint high ++ ·)
  | 0x5C :: b :: rest =>
    match shortEscape? b with
    | none => none
    | some b => (unescapeBytes? rest).map (b :: ·)
  | b :: rest => (unescapeBytes? rest).map (b :: ·)

/-- The text that a written string stands for, if it is text. -/
def unescape? (raw : List UInt8) : Option String := (unescapeBytes? raw).bind Utf8.decode?

end StreamLexer.Json
