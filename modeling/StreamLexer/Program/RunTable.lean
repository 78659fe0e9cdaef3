import StreamLexer.ResumePoint
import StreamLexer.Symbol

/-!
# Run tables

What a unit does on each symbol is mostly the same over long stretches of neighbouring symbols. A
run table lists the stretches by their last symbols; a symbol belongs to the first run that does
not end before it, found by bisection.

## Main definitions

* `Transfer`: where control goes from a unit
* `SymbolRun`, `RunTable`: stretches of symbols with the same transfer
* `RunTable.ofFunction`: the runs of a function, none of them adjacent to an equal one
* `RunTable.lookup`: the transfer of a symbol
-/

namespace StreamLexer

/-- Where control goes from a unit. -/
inductive Transfer where
  /-- Reads the symbol and goes on at another unit. -/
  | goto (unit : UnitId)
  /-- Asks for a refill, to go on at the given unit. -/
  | refillAt (unit : UnitId)
  /-- Ends the lexeme before the symbol and reports an action. -/
  | report (action : ActionId)
deriving DecidableEq, Repr

/-- A stretch of symbols, up to and including `last`, with the same transfer. -/
structure SymbolRun where
  last : Symbol
  transfer : Transfer
deriving DecidableEq, Repr

namespace SymbolRun

/-- Whether the run ends before `x`. -/
def endsBefore (r : SymbolRun) (x : Symbol) : Bool := r.last.index < x.index

/-- The runs of a function over a stretch of symbols. -/
def ofFunction (f : Symbol → Transfer) : List Symbol → List SymbolRun
  | [] => []
  | x :: xs =>
    match ofFunction f xs with
    | [] => [⟨x, f x⟩]
    | r :: rs => if r.transfer = f x then r :: rs else ⟨x, f x⟩ :: r :: rs

theorem ofFunction_cons_ne_nil (f : Symbol → Transfer) (x : Symbol) (xs : List Symbol) :
    ofFunction f (x :: xs) ≠ [] := by
  unfold ofFunction
  split
  · simp
  · split <;> simp

end SymbolRun

/-- Stretches of symbols in order. -/
structure RunTable where
  runs : Array SymbolRun
  nonempty : 0 < runs.size
deriving DecidableEq

namespace RunTable

/-- The runs of a function over all symbols. -/
def ofFunction (f : Symbol → Transfer) : RunTable where
  runs := (SymbolRun.ofFunction f Symbol.all).toArray
  nonempty := by
    have h : 0 < Symbol.all.length := by simp [Symbol.all, Symbol.bytes]
    obtain ⟨x, xs, h⟩ := List.exists_cons_of_length_pos h
    rw [List.size_toArray, h]
    exact List.length_pos_iff.2 (SymbolRun.ofFunction_cons_ne_nil f x xs)

/-- Bisects the places from `low` to `high` for the first one whose run does not end before `x`,
given that the runs are in order. -/
def bisect (runs : Array SymbolRun) (x : Symbol) : Nat → Nat → Nat → Nat
  | 0, low, _ => low
  | fuel + 1, low, high =>
    if low < high then
      let middle := (low + high) / 2
      if (runs[middle]?).any fun r => r.endsBefore x then bisect runs x fuel (middle + 1) high
      else bisect runs x fuel low middle
    else low

theorem bisect_le (runs : Array SymbolRun) (x : Symbol) (fuel low high : Nat) (h : low ≤ high) :
    bisect runs x fuel low high ≤ high := by
  induction fuel generalizing low high with
  | zero => exact h
  | succ fuel ih =>
    simp only [bisect]
    split
    · split
      · exact ih _ _ (by omega)
      · exact Nat.le_trans (ih _ _ (by omega)) (by omega)
    · exact h

/-- The place of the run that a symbol belongs to. -/
def place (t : RunTable) (x : Symbol) : Nat := bisect t.runs x t.runs.size 0 (t.runs.size - 1)

theorem place_lt (t : RunTable) (x : Symbol) : t.place x < t.runs.size := by
  have h := bisect_le t.runs x t.runs.size 0 (t.runs.size - 1) (Nat.zero_le _)
  have := t.nonempty
  simp only [place]
  omega

/-- The transfer of a symbol. -/
def lookup (t : RunTable) (x : Symbol) : Transfer :=
  have h := t.place_lt x
  t.runs[t.place x].transfer

end RunTable

end StreamLexer
