import StreamLexer.Proofs.Input.Layout
import StreamLexer.Proofs.Input.Split

/-!
# Where the cuts fall

The pieces of an input are slices of it. A slice goes from the end of the one before it up to its
cut, and a cut outside of what is left is moved to there. Here each slice is taken out of the whole
input: a place is moved between two bounds only if these are in order, and a slice is there only if
it begins before it ends and ends within the input. No piece is missing for all that, since every
slice begins within the input.

So each piece ends at the furthest cut so far, or at the end of the input.

## Main definitions

* `Source.moved?`: a place moved between bounds
* `Source.slices?`: the pieces of an input, slice by slice

## Main results

* `Source.slices?_eq_pieces`: no slice is missing, and the slices are the pieces
* `Source.length_take_pieces`: where the pieces end
* `split_covers`: the pieces of an input that is cut
-/

namespace StreamLexer

namespace Source

/-- A place moved to between two bounds, if these are in order. -/
def moved? (place low high : Nat) : Option Nat :=
  if low ≤ high then some (max low (min place high)) else none

/-- The pieces of an input from a place on, each of them looked up. The place moves to where a slice
ends. -/
def slices? (input : List UInt8) (low : Nat) : List Nat → Option (List Chunk)
  | [] => (slice? input low input.length).map fun bytes => [.last bytes]
  | cut :: cuts => do
    let high ← moved? cut low input.length
    let bytes ← slice? input low high
    let chunks ← slices? input high cuts
    return .more bytes :: chunks

variable {input : List UInt8} {low : Nat}

/-- **A cut takes one piece off** what is left of the input, and stays within it. -/
theorem exists_slice (cut : Nat) (cuts : List Nat) (h : low ≤ input.length) :
    ∃ high bytes, moved? cut low input.length = some high ∧
      slice? input low high = some bytes ∧
      pieces low (input.drop low) (cut :: cuts) =
        .more bytes :: pieces high (input.drop high) cuts ∧
      high = max low (min cut input.length) ∧ low + bytes.length = high := by
  obtain ⟨high, hHigh⟩ : ∃ high, high = max low (min cut input.length) := ⟨_, rfl⟩
  have hSize : min (cut - low) (input.drop low).length = high - low := by
    rw [List.length_drop]
    omega
  refine ⟨high, (input.drop low).take (high - low), ?moved, ?slice, ?pieces, hHigh, ?length⟩
  case moved => rw [moved?, if_pos h, hHigh]
  case slice => exact slice?_of_le (by omega) (by omega)
  case pieces =>
    simp only [pieces, hSize]
    rw [List.drop_drop, show low + (high - low) = high by omega]
  case length =>
    rw [List.length_take, List.length_drop]
    omega

/-- **No slice is missing, and the slices are the pieces.** -/
theorem slices?_eq_pieces (h : low ≤ input.length) (cuts : List Nat) :
    slices? input low cuts = some (pieces low (input.drop low) cuts) := by
  induction cuts generalizing low with
  | nil =>
    rw [slices?, slice?_length h]
    rfl
  | cons cut cuts ih =>
    obtain ⟨high, bytes, hMoved, hSlice, hPieces, hHigh, -⟩ := exists_slice cut cuts h
    rw [slices?, hMoved, hPieces]
    simp only [Option.bind_eq_bind, Option.bind_some, hSlice]
    rw [ih (by omega)]
    rfl

theorem foldl_max_cons (cut : Nat) (cuts : List Nat) :
    (cut :: cuts).foldl max 0 = max cut (cuts.foldl max 0) := by
  rw [List.foldl_cons, Nat.max_comm, List.foldl_assoc]

/-- **Each piece ends at the furthest cut so far**, or at the end of the input. -/
theorem length_take_pieces (h : low ≤ input.length) (cuts : List Nat) {k : Nat}
    (hk : k ≤ cuts.length) :
    low + (((pieces low (input.drop low) cuts).take k).flatMap Chunk.bytes).length =
      min (max low ((cuts.take k).foldl max 0)) input.length := by
  induction cuts generalizing low k with
  | nil =>
    obtain rfl : k = 0 := Nat.le_zero.mp hk
    simp only [List.take_zero, List.flatMap_nil, List.length_nil, List.foldl_nil]
    omega
  | cons cut cuts ih =>
    cases k with
    | zero =>
      simp only [List.take_zero, List.flatMap_nil, List.length_nil, List.foldl_nil]
      omega
    | succ k =>
      obtain ⟨high, bytes, -, -, hPieces, hHigh, hLength⟩ := exists_slice cut cuts h
      have hWithin : high ≤ input.length := by omega
      have hOthers := ih hWithin (Nat.le_of_succ_le_succ hk)
      rw [hPieces, List.take_succ_cons, List.take_succ_cons, foldl_max_cons, List.flatMap_cons,
        List.length_append]
      simp only [Chunk.more]
      omega

end Source

/-- **The pieces of an input that is cut.** Let an input be cut at any places, in any order, with
repeats and with places behind its end. No slice of it is missing. There is one piece more than
there are cuts, each is handed out when it is asked for, and then none is left. Put together they
are the input, the last of them ends the stream and no other, and the first `k` of them end at the
furthest of the first `k` cuts, or at the end of the input if that comes before. -/
theorem split_covers (input : List UInt8) (cuts : List Nat) :
    ∃ chunks, Source.slices? input 0 cuts = some chunks ∧
      Source.split input cuts = .queue chunks ∧
      chunks.length = cuts.length + 1 ∧
      (Source.split input cuts).deliveries (cuts.length + 1) = chunks.map .chunk ∧
      (Source.split input cuts).after (cuts.length + 1) = .queue [] ∧
      chunks.flatMap Chunk.bytes = input ∧
      Chunk.EndOnce chunks ∧
      ∀ k ≤ cuts.length, ((chunks.take k).flatMap Chunk.bytes).length =
        min ((cuts.take k).foldl max 0) input.length := by
  have hLength : (Source.pieces 0 input cuts).length = cuts.length + 1 :=
    Source.length_pieces 0 input cuts
  have hOnce : Chunk.EndOnce (Source.pieces 0 input cuts) := Source.endOnce_pieces 0 input cuts
  refine ⟨Source.pieces 0 input cuts, ?slices, rfl, hLength, ?deliveries, ?after, ?bytes, hOnce,
    ?bounds⟩
  case slices => exact Source.slices?_eq_pieces (Nat.zero_le _) cuts
  case deliveries =>
    have hAll : ((Source.pieces 0 input cuts).map Delivery.chunk).length = cuts.length + 1 := by
      rw [List.length_map, hLength]
    rw [Source.split, Source.deliveries_queue, Source.deliveries_script _ _ (Nat.le_of_eq hAll.symm),
      ← hAll, List.take_length]
  case after => rw [Source.split, Source.after_queue, ← hLength, List.drop_length]
  case bytes => rw [← hOnce.delivered_eq, Source.delivered_pieces]
  case bounds =>
    intro k hk
    have hEnd := Source.length_take_pieces (Nat.zero_le input.length) cuts hk
    rw [List.drop_zero] at hEnd
    omega

/-- The third of the cuts is behind the end of the input, and the fourth one before the others. -/
theorem split_covers_unsorted :
    ∃ chunks, Source.slices? [1, 2, 3, 4, 5] 0 [2, 2, 9, 1] = some chunks ∧
      Source.split [1, 2, 3, 4, 5] [2, 2, 9, 1] = .queue chunks ∧
      3 ≤ [2, 2, 9, 1].length ∧ ((chunks.take 3).flatMap Chunk.bytes).length = 5 ∧
      chunks = [.more [1, 2], .more [], .more [3, 4, 5], .more [], .last []] := by
  obtain ⟨chunks, hSlices, hSplit, -, -, -, -, -, hBounds⟩ :=
    split_covers [1, 2, 3, 4, 5] [2, 2, 9, 1]
  refine ⟨chunks, hSlices, hSplit, by decide, hBounds 3 (by decide), ?_⟩
  exact (Source.queue.inj hSplit).symm

end StreamLexer
