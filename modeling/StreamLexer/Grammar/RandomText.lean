import StreamLexer.Grammar.Sample
import StreamLexer.Random.Dice

/-!
# Random texts of the sample grammar

A random text is a sequence of words, integers, blanks, comments and operators, chosen until it is
long enough, with an integer at the end. A noisy text is one with bytes thrown in that start no
token. An input of a given length can also be cut at random.

## Main definitions

* `RandomText.token`: one random token
* `RandomText.valid`, `RandomText.noisy`: a random text, without and with noise
* `RandomText.cuts`: random places to cut an input
-/

namespace StreamLexer.RandomText

variable {σ : Type} (d : Dice σ)

/-- Six cases out of ten. -/
def sixTenths : Chance := .cases 11068046444225730560

/-- Two cases out of ten. -/
def twoTenths : Chance := .cases 3689348814741910528

/-- One case out of four. -/
def oneQuarter : Chance := .cases 4611686018427387904

/-- Letters and the underscore. -/
def letters : List UInt8 := ascii "abcdefghijklmnopqrstuvwxyzABCDEFGHIJKLMNOPQRSTUVWXYZ_"

/-- Decimal digits. -/
def digits : List UInt8 := ascii "0123456789"

/-- What line comments are made of. -/
def lineAlphabet : List UInt8 :=
  ascii "abcdefghijklmnopqrstuvwxyzABCDEFGHIJKLMNOPQRSTUVWXYZ0123456789 +-*/&|![]\x7b\x7d()<>=*"

/-- What block comments are made of, apart from stars and line breaks. -/
def blockAlphabet : List UInt8 :=
  ascii "abcdefghijklmnopqrstuvwxyzABCDEFGHIJKLMNOPQRSTUVWXYZ0123456789 +-![]\x7b\x7d()<>=&|"

/-- Words around the keyword. -/
def keywords : List (List UInt8) := ["if", "iff", "i", "if0"].map ascii

/-- The operators. -/
def operators : List (List UInt8) :=
  ["(", ")", "+", "-", "*", "=", "/", "!", "!=", "[", "]", "\x7b", "\x7d", "<", "<=", ">", ">=",
    "==", "&", "&&", "|", "||"].map ascii

/-- Bytes that start no token. -/
def noise : List UInt8 := ascii "#$@`~\\\"'%^?" ++ [0x00, 0x7F, 0xFF]

/-- A letter more often than a digit. -/
def identTail : StateM σ UInt8 := do
  if ← d.happens sixTenths then d.pick letters else d.pick digits

/-- A letter and up to eleven letters and digits. -/
def ident : StateM σ (List UInt8) := do
  let length ← d.between 1 12
  let first ← d.pick letters
  let tail ← Dice.repeated (identTail d) (length - 1)
  return first :: tail

/-- A word around the keyword, and a blank. -/
def keyword : StateM σ (List UInt8) := do
  return (← d.pick keywords) ++ ascii " "

/-- Up to eight digits. -/
def int : StateM σ (List UInt8) := do
  Dice.repeated (d.pick digits) (← d.between 1 8)

/-- Up to eight blanks. -/
def blanks : StateM σ (List UInt8) := do
  Dice.repeated (d.pick (ascii " \t\r\n")) (← d.between 1 8)

/-- A line comment with its line break. -/
def lineComment : StateM σ (List UInt8) := do
  let body ← Dice.repeated (d.pick lineAlphabet) (← d.between 0 40)
  return ascii "//" ++ body ++ ascii "\n"

/-- Part of a block comment, perhaps followed by a star, perhaps by a line break. -/
def blockPart : StateM σ (List UInt8) := do
  let body ← Dice.repeated (d.pick blockAlphabet) (← d.between 1 8)
  let star := if ← d.happens twoTenths then ascii "*" else []
  let lineBreak := if ← d.happens twoTenths then ascii "\n" else []
  return body ++ star ++ lineBreak

/-- A block comment. -/
def blockComment : StateM σ (List UInt8) := do
  let parts ← Dice.repeated (blockPart d) (← d.between 0 15)
  return ascii "/*" ++ parts.flatten ++ ascii "*/"

/-- An operator, perhaps followed by a blank. A slash is always, so that it starts no comment. -/
def operator : StateM σ (List UInt8) := do
  let op ← d.pick operators
  if op = ascii "/" then return op ++ ascii " "
  if ← d.happens oneQuarter then return op ++ ascii " "
  return op

/-- A token of a random kind. -/
def token : StateM σ (List UInt8) := do
  let roll ← d.below 100
  if roll ≤ 21 then ident d
  else if roll ≤ 24 then keyword d
  else if roll ≤ 39 then int d
  else if roll ≤ 54 then blanks d
  else if roll ≤ 61 then lineComment d
  else if roll ≤ 70 then blockComment d
  else operator d

/-- Tokens until `missing` bytes are there, at most so many tokens; those of `sofar` stand latest
first. -/
def tokens : Nat → Nat → List (List UInt8) → StateM σ (List (List UInt8))
  | 0, _, sofar => return sofar.reverse
  | fuel + 1, missing, sofar =>
    if missing = 0 then return sofar.reverse
    else do
      let next ← token d
      tokens fuel (missing - next.length) (next :: sofar)

/-- A random text of at least `length` bytes. Every token has a byte, so that there are at most
that many. -/
def valid (length : Nat) : StateM σ (List UInt8) := do
  let text ← tokens d length length []
  return text.flatten ++ ascii " 0\n"

/-- Throws noise into a text, before a byte by the given chance; what is done stands latest
first. -/
def sprinkle (rate : Chance) : List UInt8 → List UInt8 → StateM σ (List UInt8)
  | sofar, [] => return sofar.reverse
  | sofar, b :: rest => do
    if ← d.happens rate then
      let stray ← d.pick noise
      sprinkle rate (b :: stray :: sofar) rest
    else sprinkle rate (b :: sofar) rest

/-- A random text with noise. -/
def noisy (length : Nat) (rate : Chance) : StateM σ (List UInt8) := do
  sprinkle d rate [] (← valid d length)

/-- Fewer than `pieces` random places to cut an input of the given length, in order. -/
def cuts (length pieces : Nat) : StateM σ (List Nat) := do
  let count ← d.below (max pieces 1)
  let places ← Dice.repeated (d.below (length + 1)) count
  return places.mergeSort

end StreamLexer.RandomText
