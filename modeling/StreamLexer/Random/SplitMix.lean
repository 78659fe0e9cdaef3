import StreamLexer.Random.Dice

/-!
# Dice from a stream of words

A stream of 64-bit words starts with given ones and goes on with a mixed counter. A number below a
bound takes the upper half of a word, scaled; a second half word settles whether a carry reaches the
result. A chance takes a whole word.

## Main definitions

* `WordStream`: the words to come, and how many were drawn
* `WordStream.dice`: dice that draw words
-/

namespace StreamLexer

/-- Given words, the counter that the later ones are mixed from, and how many were drawn. -/
structure WordStream where
  given : List UInt64
  counter : UInt64
  drawn : Nat
deriving DecidableEq, Repr

namespace WordStream

/-- The stream of a seed, after some given words. -/
def ofSeed (seed : UInt64) (given : List UInt64) : WordStream := ⟨given, seed, 0⟩

/-- Spreads the bits of a counter over a word. -/
def mix (z : UInt64) : UInt64 :=
  let z := (z ^^^ (z >>> 30)) * 0xBF58476D1CE4E5B9
  let z := (z ^^^ (z >>> 27)) * 0x94D049BB133111EB
  z ^^^ (z >>> 31)

/-- Draws a word. -/
def word : StateM WordStream UInt64 := fun s =>
  match s.given with
  | w :: given => (w, { s with given := given, drawn := s.drawn + 1 })
  | [] =>
    let counter := s.counter + 0x9E3779B97F4A7C15
    (mix counter, { s with counter := counter, drawn := s.drawn + 1 })

/-- Draws the upper half of a word. -/
def half : StateM WordStream Nat := do
  return (← word).toNat / UInt32.size

/-- Chooses a number below a bound of at most 2^32. -/
def below (n : Nat) : StateM WordStream Nat := do
  let x ← half
  if n = UInt32.size then return x
  let result := x * n / UInt32.size
  let low := x * n % UInt32.size
  if UInt32.size - n < low then
    let y ← half
    return if UInt32.size ≤ low + y * n / UInt32.size then result + 1 else result
  return result

/-- Chooses whether something happens. What is certain needs no word. -/
def happens : Chance → StateM WordStream Bool
  | .certain => return true
  | .cases count => do return (← word) < count

/-- Dice that draw words. -/
def dice : Dice WordStream := ⟨below, happens⟩

end WordStream

end StreamLexer
