/-!
# Random choices

A random text is made of two kinds of choices: a number below a bound, and whether something
happens by a given chance. Dice make them from a state. Nothing is said about how likely a choice
is; fair dice only stay below their bounds.

## Main definitions

* `Chance`: how likely something is
* `Dice`, `Dice.Fair`: how choices are made from a state
* `Dice.pick`, `Dice.between`, `Dice.repeated`: derived choices
-/

namespace StreamLexer

/-- How likely something is: certain, or so many cases out of 2^64. -/
inductive Chance where
  | certain
  | cases (count : UInt64)
deriving DecidableEq, Repr

/-- The chance of a probability, unless it is not one. -/
def Chance.ofFloat? (p : Float) : Option Chance :=
  if p == 1.0 then some .certain
  else if 0.0 ≤ p && p < 1.0 then some (.cases (p * 18446744073709551616.0).toUInt64)
  else none

/-- How choices are made from a state. -/
structure Dice (σ : Type) where
  /-- Chooses a number below a positive bound. -/
  below : Nat → StateM σ Nat
  /-- Chooses whether something happens. -/
  happens : Chance → StateM σ Bool

namespace Dice

variable {σ : Type}

/-- Dice whose numbers stay below their bounds. -/
def Fair (d : Dice σ) : Prop := ∀ n s, 0 < n → (d.below n s).1 < n

/-- Chooses a number between two bounds, both included. -/
def between (d : Dice σ) (low high : Nat) : StateM σ Nat := do
  return low + (← d.below (high - low + 1))

/-- Chooses an element of a list. -/
def pick {α : Type} [Inhabited α] (d : Dice σ) (set : List α) : StateM σ α := do
  return set.getD (← d.below set.length) default

/-- Makes a choice so many times. -/
def repeated {α : Type} (act : StateM σ α) : Nat → StateM σ (List α)
  | 0 => return []
  | n + 1 => do
    let first ← act
    let others ← repeated act n
    return first :: others

end Dice

end StreamLexer
