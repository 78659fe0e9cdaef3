import StreamLexer.Proofs.Input.Delivery

/-!
# An input that is cut

Cuts split an input into pieces, one more than there are cuts, of which the last one ends the
stream. A cut that stands before an earlier one, or behind the end, makes an empty piece. The pieces
put together are the input.

A buffer over such pieces takes in all of them before it is at the end of the stream, and none
after that. So the number of its refills in all is known from the start.

## Main definitions

* `Chunk.EndOnce`: chunks of which the last one ends the stream, and no other
* `ScanBuffer.Totals`: how often a buffer is refilled in all

## Main results

* `Source.delivered_pieces`: the pieces of an input make it up
* `ScanBuffer.totals_split`: the number of refills of an input that is cut
* `ScanBuffer.Totals.refill`: a refill does not change the number of refills in all
-/

namespace StreamLexer

/-- Chunks of which the last one ends the stream, and no other. -/
inductive Chunk.EndOnce : List Chunk → Prop
  | last {c : Chunk} : c.final = true → EndOnce [c]
  | more {c : Chunk} {cs : List Chunk} : c.final = false → EndOnce cs → EndOnce (c :: cs)

/-- Chunks of which no other than the last one ends the stream are delivered in full. -/
theorem Chunk.EndOnce.delivered_eq {chunks : List Chunk} (h : Chunk.EndOnce chunks) :
    Chunk.delivered chunks = chunks.flatMap Chunk.bytes := by
  induction h with
  | last hFinal => simp [delivered, hFinal]
  | more hFinal _ ih => simp [delivered, hFinal, ih]

namespace Source

theorem length_pieces (offset : Nat) (input : List UInt8) (cuts : List Nat) :
    (pieces offset input cuts).length = cuts.length + 1 := by
  induction cuts generalizing offset input with
  | nil => rfl
  | cons cut cuts ih => rw [pieces, List.length_cons, ih, List.length_cons]

theorem endOnce_pieces (offset : Nat) (input : List UInt8) (cuts : List Nat) :
    Chunk.EndOnce (pieces offset input cuts) := by
  induction cuts generalizing offset input with
  | nil => exact .last rfl
  | cons cut cuts ih => exact .more rfl (ih _ _)

/-- **The pieces of an input make it up**, wherever it is cut. -/
theorem delivered_pieces (offset : Nat) (input : List UInt8) (cuts : List Nat) :
    Chunk.delivered (pieces offset input cuts) = input := by
  induction cuts generalizing offset input with
  | nil => rfl
  | cons cut cuts ih =>
    rw [pieces, Chunk.delivered, ih]
    exact List.take_append_drop _ input

end Source

namespace ScanBuffer

/-- From its start to the end of its stream, the buffer takes in so many deliveries. -/
inductive Totals (b : ScanBuffer) (total : Nat) : Prop
  | ended : b.window.atEnd = true → b.refills = total → Totals b total
  | ahead {chunks : List Chunk} : b.window.atEnd = false → b.source = .queue chunks →
      Chunk.EndOnce chunks → b.refills + chunks.length = total → Totals b total

/-- **An input that is cut is taken in piece by piece.** -/
theorem totals_split (input : List UInt8) (cuts : List Nat) :
    (ofSource [] (.split input cuts)).Totals (cuts.length + 1) := by
  refine .ahead rfl rfl (Source.endOnce_pieces 0 input cuts) ?_
  rw [Source.length_pieces]
  exact Nat.zero_add _

namespace Totals

variable {b b' : ScanBuffer} {total : Nat}

theorem of_window (h : b.Totals total) {w : Window} (hEnd : w.atEnd = b.window.atEnd) :
    ScanBuffer.Totals { b with window := w } total := by
  cases h with
  | ended hAtEnd hRefills => exact .ended (hEnd.trans hAtEnd) hRefills
  | ahead hAhead hSource hOnce hRefills => exact .ahead (hEnd.trans hAhead) hSource hOnce hRefills

/-- **A refill does not change the number of refills in all.** -/
theorem refill (h : b.Totals total) {r : Option Refill} (hRefill : b.refill = (.ok r, b')) :
    b'.Totals total := by
  cases h with
  | ended hAtEnd hRefills =>
    rw [refill_of_atEnd hAtEnd] at hRefill
    cases hRefill
    exact .ended hAtEnd hRefills
  | ahead hAhead hSource hOnce hRefills =>
    cases hOnce with
    | @last c hFinal =>
      have hSupply : b.source.supply = (.chunk c, .queue []) := by
        rw [hSource]
        rfl
      rw [refill_of_chunk hAhead hSupply] at hRefill
      cases hRefill
      refine .ended ?_ hRefills
      simp [receive, Window.append, hFinal]
    | @more c chunks hMore hOnce =>
      have hSupply : b.source.supply = (.chunk c, .queue chunks) := by
        rw [hSource]
        rfl
      rw [refill_of_chunk hAhead hSupply] at hRefill
      cases hRefill
      refine .ahead ?_ rfl hOnce ?_
      · simp [receive, afterAsking, Window.append, Window.dropSpent, hAhead, hMore]
      · simp only [receive, afterAsking, List.length_cons] at hRefills ⊢
        omega

theorem toCome_le (h : b.Totals total) : b.toCome ≤ total + 1 := by
  cases h with
  | ended hAtEnd => simp [toCome, hAtEnd]
  | ahead hAhead hSource _ hRefills =>
    simp only [toCome, hAhead, hSource, Source.ahead, Bool.false_eq_true, if_false]
    omega

theorem refills_eq (h : b.Totals total) (hExhausted : b.isExhausted = true) :
    b.refills = total := by
  cases h with
  | ended _ hRefills => exact hRefills
  | ahead hAhead => simp [isExhausted, Window.isExhausted, hAhead] at hExhausted

end Totals

end ScanBuffer

end StreamLexer
