/-!
# Reading bytes as text

A byte string is read one byte at a time. A lead byte promises continuation bytes, each with its
own bounds, so that overlong forms, surrogates and values above the last code point are refused at
the first byte that rules them out. The strict reading fails there; the lossy one writes a
replacement character for the bytes of the broken character and goes on with the refused byte.

## Main definitions

* `Partial`: a character in progress, with the bounds of the bytes still owed
* `decode?`: the strict reading
* `decodeLossy`: the lossy reading
-/

namespace StreamLexer.Utf8

/-- A character in progress: the bits read, and the bounds of each continuation byte owed. -/
structure Partial where
  value : Nat
  owed : List (UInt8 × UInt8)

/-- The bounds of an unrestricted continuation byte. -/
def tail : UInt8 × UInt8 := (0x80, 0xBF)

/-- What a lead byte promises, if it can start a character. -/
def lead? (b : UInt8) : Option Partial :=
  let n := b.toNat
  if n < 0x80 then some ⟨n, []⟩
  else if n < 0xC2 then none
  else if n < 0xE0 then some ⟨n - 0xC0, [tail]⟩
  else if n = 0xE0 then some ⟨0, [(0xA0, 0xBF), tail]⟩
  else if n = 0xED then some ⟨0xD, [(0x80, 0x9F), tail]⟩
  else if n < 0xF0 then some ⟨n - 0xE0, [tail, tail]⟩
  else if n = 0xF0 then some ⟨0, [(0x90, 0xBF), tail, tail]⟩
  else if n < 0xF4 then some ⟨n - 0xF0, [tail, tail, tail]⟩
  else if n = 0xF4 then some ⟨4, [(0x80, 0x8F), tail, tail]⟩
  else none

/-- Takes one continuation byte, if it lies within the bounds owed. -/
def Partial.next? (p : Partial) (b : UInt8) : Option Partial :=
  match p.owed with
  | [] => none
  | (low, high) :: owed =>
    if low ≤ b ∧ b ≤ high then some ⟨p.value * 64 + (b.toNat - 0x80), owed⟩ else none

/-- Characters read so far, latest first, and the character in progress. -/
abbrev Reading := List Char × Option Partial

/-- Completes a character that owes nothing more. -/
def settle (out : List Char) (p : Partial) : Reading :=
  match p.owed with
  | [] => (Char.ofNat p.value :: out, none)
  | _ :: _ => (out, some p)

/-- The character written for a broken one. -/
def replacement : Char := '\uFFFD'

/-- Reads one byte between characters, replacing it if it can start none. -/
def startLossy (out : List Char) (b : UInt8) : Reading :=
  match lead? b with
  | some p => settle out p
  | none => (replacement :: out, none)

/-- Reads one byte; a broken character is replaced and the byte starts the next one. -/
def stepLossy : Reading → UInt8 → Reading
  | (out, none), b => startLossy out b
  | (out, some p), b =>
    match p.next? b with
    | some p => settle out p
    | none => startLossy (replacement :: out) b

/-- The text of a byte string, with one replacement character for every broken character. -/
def decodeLossy (bytes : List UInt8) : String :=
  match bytes.foldl stepLossy ([], none) with
  | (out, none) => String.ofList out.reverse
  | (out, some _) => String.ofList (replacement :: out).reverse

/-- Reads one byte of well-formed text. -/
def step? : Reading → UInt8 → Option Reading
  | (out, none), b => (lead? b).map (settle out)
  | (out, some p), b => (p.next? b).map (settle out)

/-- The text of a byte string, if it is well formed throughout. -/
def decode? (bytes : List UInt8) : Option String :=
  match bytes.foldlM step? ([], none) with
  | some (out, none) => some (String.ofList out.reverse)
  | _ => none

/-- The bytes of a text. -/
def encode (s : String) : List UInt8 := s.toUTF8.data.toList

end StreamLexer.Utf8
