import StreamLexer.Error

/-!
# Words in stored tables

Stored tables hold words of sixteen and of thirty-two bits, least significant byte first. Reading
takes a word off the front of a byte string and leaves the rest.

## Main definitions

* `Word.ofU16`, `Word.ofU32`: the bytes of a word
* `Word.readU16`, `Word.readU32`: a word off the front
* `Word.readMany`: a counted sequence off the front

## Main results

* `Word.readU16_ofU16`, `Word.readU32_ofU32`: a written word reads back
-/

namespace StreamLexer.Word

/-- What is read off the front of a byte string, and the rest. -/
abbrev Read (α : Type) := Except FormatFault (α × List UInt8)

/-- The byte of `n` at the place of weight `weight`. -/
def byteAt (n weight : Nat) : UInt8 := UInt8.ofNat (n / weight)

/-- The bytes of a sixteen-bit word. -/
def ofU16 (n : UInt16) : List UInt8 := [byteAt n.toNat 1, byteAt n.toNat 256]

/-- The bytes of a thirty-two-bit word. -/
def ofU32 (n : UInt32) : List UInt8 :=
  [byteAt n.toNat 1, byteAt n.toNat 256, byteAt n.toNat 65536, byteAt n.toNat 16777216]

/-- Reads a sixteen-bit word. -/
def readU16 : List UInt8 → Read UInt16
  | a :: b :: rest => .ok (UInt16.ofNat (a.toNat + 256 * b.toNat), rest)
  | _ => .error (.truncated 16)

/-- Reads a thirty-two-bit word. -/
def readU32 : List UInt8 → Read UInt32
  | a :: b :: c :: d :: rest =>
    .ok (UInt32.ofNat (a.toNat + 256 * b.toNat + 65536 * c.toNat + 16777216 * d.toNat), rest)
  | _ => .error (.truncated 32)

/-- Reads so many items, one after the other. -/
def readMany {α : Type} (read : List UInt8 → Read α) : Nat → List UInt8 → Read (List α)
  | 0, bytes => .ok ([], bytes)
  | n + 1, bytes =>
    match read bytes with
    | .error fault => .error fault
    | .ok (first, bytes) =>
      match readMany read n bytes with
      | .error fault => .error fault
      | .ok (others, bytes) => .ok (first :: others, bytes)

@[simp] theorem toNat_byteAt (n weight : Nat) : (byteAt n weight).toNat = n / weight % 256 := by
  simp [byteAt]

@[simp] theorem readU16_ofU16 (n : UInt16) (rest : List UInt8) :
    readU16 (ofU16 n ++ rest) = .ok (n, rest) := by
  have h := n.toNat_lt
  have : n.toNat / 1 % 256 + 256 * (n.toNat / 256 % 256) = n.toNat := by omega
  simp only [ofU16, List.cons_append, List.nil_append, readU16, toNat_byteAt, this,
    UInt16.ofNat_toNat]

@[simp] theorem readU32_ofU32 (n : UInt32) (rest : List UInt8) :
    readU32 (ofU32 n ++ rest) = .ok (n, rest) := by
  have h := n.toNat_lt
  have : n.toNat / 1 % 256 + 256 * (n.toNat / 256 % 256) + 65536 * (n.toNat / 65536 % 256) +
      16777216 * (n.toNat / 16777216 % 256) = n.toNat := by omega
  simp only [ofU32, List.cons_append, List.nil_append, readU32, toNat_byteAt, this,
    UInt32.ofNat_toNat]

end StreamLexer.Word
