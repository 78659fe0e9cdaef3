import Mathlib.Tactic.SplitIfs
import StreamLexer.Random.SplitMix

/-!
# What dice can choose

A random choice is made from a state of its dice, and leaves another. Whatever is shown of its
outcome from every state holds whichever choices were made before. Fair dice give a number between
its bounds and an element of a list that is not empty; the dice that draw words are fair.

## Main definitions

* `Yields`: every outcome of a random choice has a property

## Main results

* `Yields.bind`: choices in a row
* `Dice.yields_between`, `Dice.yields_pick`, `Yields.repeated`: the derived choices
* `WordStream.dice_fair`: the dice that draw words are fair
-/

namespace StreamLexer

variable {σ α β : Type}

/-- Every outcome of a random choice has the property. -/
def Yields (act : StateM σ α) (p : α → Prop) : Prop := ∀ s, p (act s).1

section Yields

variable {act : StateM σ α} {f : α → StateM σ β} {p : α → Prop} {q : β → Prop}

theorem yields_pure {x : α} (h : p x) : Yields (pure x : StateM σ α) p := fun _ => h

theorem Yields.bind (h : Yields act p) (hNext : ∀ x, p x → Yields (f x) q) :
    Yields (act >>= f) q := by
  intro s
  exact hNext _ (h s) (act s).2

theorem Yields.imp {p' : α → Prop} (h : Yields act p) (hImp : ∀ x, p x → p' x) : Yields act p' :=
  fun s => hImp _ (h s)

/-- A choice of which nothing is asked. -/
theorem Yields.trivial : Yields act fun _ => True := fun _ => True.intro

/-- A choice made so many times has so many outcomes, each of them one of the single choice. -/
theorem Yields.repeated (h : Yields act p) (n : Nat) :
    Yields (Dice.repeated act n) fun xs => xs.length = n ∧ ∀ x ∈ xs, p x := by
  induction n with
  | zero => exact yields_pure ⟨rfl, by simp⟩
  | succ n ih =>
    refine h.bind fun x hx => ih.bind fun xs hxs => yields_pure ⟨?_, ?_⟩
    · rw [List.length_cons, hxs.1]
    · exact List.forall_mem_cons.mpr ⟨hx, hxs.2⟩

end Yields

namespace Dice

variable {d : Dice σ}

theorem yields_between (hFair : d.Fair) {low high : Nat} (h : low ≤ high) :
    Yields (d.between low high) fun n => low ≤ n ∧ n ≤ high := by
  have hBelow : Yields (d.below (high - low + 1)) fun n => n < high - low + 1 :=
    fun s => hFair _ s (Nat.succ_pos _)
  refine hBelow.bind fun n hn => yields_pure ?_
  omega

theorem yields_pick [Inhabited α] (hFair : d.Fair) {set : List α} (h : set ≠ []) :
    Yields (d.pick set) fun x => x ∈ set := by
  have hBelow : Yields (d.below set.length) fun n => n < set.length :=
    fun s => hFair _ s (List.length_pos_iff.mpr h)
  refine hBelow.bind fun n hn => yields_pure ?_
  rw [List.getD_eq_getElem?_getD, List.getElem?_eq_getElem hn]
  exact List.getElem_mem hn

end Dice

namespace WordStream

theorem yields_half : Yields half fun x => x < UInt32.size := by
  intro s
  have hWord : (word s).1.toNat < UInt32.size * UInt32.size := (word s).1.toNat_lt
  exact Nat.div_lt_of_lt_mul hWord

/-- The upper half of a word, scaled to a bound, stays below the bound. -/
theorem scaled_lt {n x : Nat} (hn : 0 < n) (hx : x < UInt32.size) : x * n / UInt32.size < n :=
  Nat.div_lt_of_lt_mul (Nat.mul_lt_mul_of_pos_right hx hn)

/-- So it does with the carry that a second half settles. -/
theorem carried_lt {n x y : Nat} (hn : 0 < n) (hx : x < UInt32.size) (hy : y < UInt32.size)
    (hCarry : UInt32.size ≤ x * n % UInt32.size + y * n / UInt32.size) :
    x * n / UInt32.size + 1 < n := by
  have hSplit : UInt32.size * (x * n / UInt32.size) + x * n % UInt32.size = x * n :=
    Nat.div_add_mod _ _
  have hFirst : x * n + n ≤ UInt32.size * n := by
    rw [← Nat.succ_mul]
    exact Nat.mul_le_mul_right n hx
  have hSecond : y * n / UInt32.size < n := scaled_lt hn hy
  have hBound : UInt32.size * (x * n / UInt32.size + 1) < UInt32.size * n := by
    rw [Nat.mul_add, Nat.mul_one]
    omega
  exact Nat.lt_of_mul_lt_mul_left hBound

theorem yields_below {n : Nat} (hn : 0 < n) : Yields (below n) fun m => m < n := by
  unfold below
  refine yields_half.bind fun x hx => ?_
  dsimp only
  split_ifs with hAll
  · exact yields_pure (hAll ▸ hx)
  · refine yields_half.bind fun y hy => yields_pure ?_
    split_ifs with hCarry
    · exact carried_lt hn hx hy hCarry
    · exact scaled_lt hn hx
  · exact yields_pure (scaled_lt hn hx)

/-- **The dice that draw words are fair.** -/
theorem dice_fair : dice.Fair := fun _ s hn => yields_below hn s

end WordStream

end StreamLexer
