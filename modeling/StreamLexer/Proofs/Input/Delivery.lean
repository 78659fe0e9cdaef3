import StreamLexer.Proofs.Input.Refill

/-!
# What remains of a stream

A source that never fails before it ends the stream delivers a list of bytes, however it cuts them:
those of its chunks, up to the first final one. What remains of a buffer's stream is what waits in
the window, followed by what the source delivers unless the stream ends with the window. A refill
succeeds on such a buffer and changes nothing about what remains.

## Main definitions

* `Source.Delivers`: the bytes of a source that ends the stream without a failure
* `Chunk.delivered`: the bytes of chunks, up to the first final one
* `ScanBuffer.Remains`: what remains of a buffer's stream

## Main results

* `Source.delivers_queue`: a queue of chunks delivers their bytes
* `ScanBuffer.Remains.refill`: a refill succeeds, and what remains stays the same
* `ScanBuffer.Remains.length_le_volume`: the volume bounds what remains
-/

namespace StreamLexer

/-- The bytes of chunks, up to and including the first final one. -/
def Chunk.delivered : List Chunk → List UInt8
  | [] => []
  | chunk :: chunks => if chunk.final then chunk.bytes else chunk.bytes ++ delivered chunks

namespace Source

/-- The source ends the stream without a failure, and the bytes are all it hands out till then. -/
inductive Delivers : Source → List UInt8 → Prop
  | last {s t : Source} {chunk : Chunk} :
      s.supply = (.chunk chunk, t) → chunk.final = true → Delivers s chunk.bytes
  | more {s t : Source} {chunk : Chunk} {bytes : List UInt8} :
      s.supply = (.chunk chunk, t) → chunk.final = false → Delivers t bytes →
      Delivers s (chunk.bytes ++ bytes)

/-- What a source delivers is determined. -/
theorem Delivers.unique {s : Source} {bytes bytes' : List UInt8} (h : s.Delivers bytes)
    (h' : s.Delivers bytes') : bytes = bytes' := by
  induction h generalizing bytes' with
  | last hSupply hFinal => cases h' <;> simp_all
  | more hSupply hFinal _ ih =>
    cases h' with
    | last => simp_all
    | more hSupply' _ hBytes' =>
      rw [hSupply] at hSupply'
      cases hSupply'
      rw [ih hBytes']

/-- **A queue delivers the bytes of its chunks.** -/
theorem delivers_queue (chunks : List Chunk) :
    (queue chunks).Delivers (Chunk.delivered chunks) := by
  induction chunks with
  | nil =>
    show (queue []).Delivers Chunk.finish.bytes
    exact Delivers.last (t := queue []) rfl rfl
  | cons chunk chunks ih =>
    rw [Chunk.delivered]
    cases hFinal : chunk.final with
    | true => exact Delivers.last rfl hFinal
    | false => exact Delivers.more rfl hFinal ih

theorem Delivers.length_le_volume {s : Source} {bytes : List UInt8} (h : s.Delivers bytes) :
    bytes.length ≤ s.volume := by
  induction h with
  | last hSupply => exact Nat.le_trans (Nat.le_add_right _ _) (volume_supply_le hSupply)
  | more hSupply _ _ ih =>
    rw [List.length_append]
    exact Nat.le_trans (Nat.add_le_add_left ih _) (volume_supply_le hSupply)

end Source

namespace ScanBuffer

/-- What remains of a buffer's stream, whose source does not fail. -/
inductive Remains (b : ScanBuffer) : List UInt8 → Prop
  | ended : b.window.atEnd = true → Remains b b.window.pending
  | ahead {bytes : List UInt8} : b.window.atEnd = false → b.source.Delivers bytes →
      Remains b (b.window.pending ++ bytes)

theorem remains_ofBytes (bytes : List UInt8) : (ofBytes bytes).Remains bytes :=
  .ended (b := ofBytes bytes) rfl

theorem remains_ofSource {source : Source} {bytes : List UInt8} (h : source.Delivers bytes)
    (start : List UInt8) : (ofSource start source).Remains (start ++ bytes) :=
  .ahead (b := ofSource start source) rfl h

/-- A buffer over a queue has before it what waits in the window and, unless the stream ends there,
the bytes of the chunks up to the first final one. -/
theorem remains_of_queue {b : ScanBuffer} {chunks : List Chunk} (h : b.source = .queue chunks) :
    b.Remains (b.window.pending ++ if b.window.atEnd then [] else Chunk.delivered chunks) := by
  cases hEnd : b.window.atEnd with
  | true =>
    rw [if_pos rfl, List.append_nil]
    exact .ended hEnd
  | false => exact .ahead hEnd (h ▸ Source.delivers_queue chunks)

theorem exists_remains_of_queue {b : ScanBuffer} {chunks : List Chunk}
    (h : b.source = .queue chunks) : ∃ rest, b.Remains rest :=
  ⟨_, remains_of_queue h⟩

namespace Remains

variable {b : ScanBuffer} {rest : List UInt8}

/-- What remains of a stream is determined. -/
theorem unique {rest' : List UInt8} (h : b.Remains rest) (h' : b.Remains rest') : rest = rest' := by
  cases h with
  | ended => cases h' <;> simp_all
  | ahead _ hBytes =>
    cases h' with
    | ended => simp_all
    | ahead _ hBytes' => rw [hBytes.unique hBytes']

theorem beginLexeme (h : b.Remains rest) : b.beginLexeme.Remains rest := by
  cases h with
  | ended hEnd => exact .ended (b := b.beginLexeme) hEnd
  | ahead hEnd hBytes => exact .ahead (b := b.beginLexeme) hEnd hBytes

/-- **A refill succeeds, and what remains stays the same.** -/
theorem refill (h : b.Remains rest) : ∃ r b', b.refill = (.ok r, b') ∧ b'.Remains rest := by
  rcases b.refill_cases with ⟨-, hRefill⟩ | ⟨causes, source, hEnd, hSupply, -⟩ |
    ⟨chunk, source, hEnd, hSupply, hRefill⟩
  · exact ⟨_, _, hRefill, h⟩
  · cases h with
    | ended hEnd' => simp [hEnd] at hEnd'
    | ahead _ hBytes => cases hBytes <;> simp_all
  · refine ⟨_, _, hRefill, ?_⟩
    cases h with
    | ended hEnd' => simp [hEnd] at hEnd'
    | ahead _ hBytes =>
      cases hBytes with
      | last hSupply' hFinal =>
        rw [hSupply] at hSupply'
        cases hSupply'
        exact .ended (b := (b.afterAsking source).receive chunk)
          (by simp [receive, Window.append, hFinal])
      | more hSupply' hFinal hBytes =>
        rw [hSupply] at hSupply'
        cases hSupply'
        rw [← List.append_assoc]
        exact .ahead (b := (b.afterAsking source).receive chunk)
          (by simp [receive, afterAsking, Window.append, Window.dropSpent, hFinal, hEnd]) hBytes

theorem length_le_volume (h : b.Remains rest) : rest.length ≤ b.volume := by
  cases h with
  | ended => exact Nat.le_add_right _ _
  | ahead _ hBytes =>
    rw [List.length_append]
    exact Nat.add_le_add_left hBytes.length_le_volume _

/-- A window that knows its next symbol is exhausted exactly if nothing remains. -/
theorem isExhausted_eq (h : b.Remains rest) (hDry : b.window.isDry = false) :
    b.isExhausted = rest.isEmpty := by
  cases h with
  | ended hEnd => simp [isExhausted, Window.isExhausted, hEnd]
  | ahead hEnd _ =>
    have hPending : b.window.pending ≠ [] := by simpa [Window.isDry, hEnd] using hDry
    simp [isExhausted, Window.isExhausted, hEnd, hPending]

theorem eq_nil_of_isExhausted (h : b.Remains rest) (hExhausted : b.isExhausted = true) :
    rest = [] := by
  obtain ⟨hPending, hEnd⟩ : b.window.pending = [] ∧ b.window.atEnd = true := by
    simpa [isExhausted, Window.isExhausted] using hExhausted
  cases h with
  | ended => exact hPending
  | ahead hEnd' => simp [hEnd] at hEnd'

end Remains

end ScanBuffer

end StreamLexer
