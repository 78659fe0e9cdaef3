import StreamLexer.Text.Hex
import StreamLexer.Text.Quoted

/-!
# Input symbols

An automaton reads the bytes of its input and, after the last of them, one symbol for the end of
input. The symbols are numbered: a byte by its value, the end of input by 256.

## Main definitions

* `Symbol`: a byte or the end of input
* `Symbol.index`, `Symbol.ofIndex?`: the numbering and its inverse
* `Symbol.bytes`, `Symbol.all`: every byte symbol, every symbol, in order
* `Symbol.describe`: the name of a symbol in a message
-/

namespace StreamLexer

/-- A byte of the input, or its end. -/
inductive Symbol where
  | byte (b : UInt8)
  | eof
deriving DecidableEq, Repr, Inhabited

namespace Symbol

/-- The number of a symbol: the value of a byte, 256 for the end of input. -/
def index : Symbol → Fin 257
  | byte b => ⟨b.toNat, Nat.lt_trans b.toNat_lt (by decide)⟩
  | eof => ⟨256, by decide⟩

/-- The symbol of a number up to 256. -/
def ofIndex? (n : Nat) : Option Symbol :=
  if n < 256 then some (byte (UInt8.ofNat n))
  else if n = 256 then some eof
  else none

/-- Every byte symbol, in order. -/
def bytes : List Symbol := (List.range 256).map fun n => byte (UInt8.ofNat n)

/-- Every symbol, in order; the end of input is the last. -/
def all : List Symbol := bytes ++ [eof]

@[simp] theorem index_byte (b : UInt8) : (byte b).index.val = b.toNat := rfl

@[simp] theorem index_eof : eof.index.val = 256 := rfl

theorem mem_all (x : Symbol) : x ∈ all := by
  cases x with
  | eof => simp [all]
  | byte b =>
    refine List.mem_append_left _ (List.mem_map.mpr ⟨b.toNat, ?_, ?_⟩)
    · exact List.mem_range.mpr b.toNat_lt
    · rw [UInt8.ofNat_toNat]

theorem index_byte_ofNat {n : Nat} (h : n < 256) : (byte (UInt8.ofNat n)).index.val = n := by
  rw [index_byte, UInt8.toNat_ofNat_of_lt' h]

theorem all_pairwise : all.Pairwise fun x y => x.index < y.index := by
  refine List.pairwise_append.mpr ⟨?_, List.pairwise_singleton _ _, ?_⟩
  · refine List.pairwise_map.mpr (List.pairwise_lt_range.imp_of_mem fun {m n} hm hn h => ?_)
    rw [Fin.lt_def, index_byte_ofNat (List.mem_range.mp hm),
      index_byte_ofNat (List.mem_range.mp hn)]
    exact h
  · intro x hx y hy
    obtain ⟨n, hn, rfl⟩ := List.mem_map.mp hx
    obtain rfl := List.mem_singleton.mp hy
    rw [Fin.lt_def, index_byte_ofNat (List.mem_range.mp hn)]
    exact List.mem_range.mp hn

/-- The name of a symbol in a message: a visible byte is quoted, any other shown by its value. -/
def describe : Symbol → String
  | eof => "EOF"
  | byte b =>
    if 0x21 ≤ b ∧ b ≤ 0x7E then Text.quoteChar (Char.ofNat b.toNat)
    else "0x" ++ String.ofList (Hex.ofByte .upper b)

end Symbol

end StreamLexer
