import StreamLexer.Input.ScanBuffer

/-!
# What a refill does

A refill does nothing at the end of the stream. Before it, the source is asked once; if it fails,
its failure is the error, and if it hands out a chunk, the chunk is taken in. Neither changes the
lexeme or where it begins, and both only let go of bytes that no lexeme can reach again.

The volume of a source bounds the bytes that are still to come, whatever its deliveries and however
it fails. A delivery takes its bytes off the volume, so that a refill moves bytes from the source to
the window and adds none.

## Main results

* `ScanBuffer.refill_cases`: the three outcomes of a refill
* `ScanBuffer.lexeme_of_refill`, `ScanBuffer.lexemeStart_of_refill`: the lexeme stays as it is
* `Source.volume_supply_le`, `ScanBuffer.volume_le_of_refill`: a refill adds no byte
* `ScanBuffer.toCome_le_of_refill`, `ScanBuffer.toCome_refill_reached_lt`: a refill brings the
  stream nearer to its end
-/

namespace StreamLexer

namespace Source

theorem total_read_le {size : Nat} {events left : List ReadEvent} {d : Delivery}
    (h : read size events = (d, left)) :
    d.length + total ReadEvent.length left ≤ total ReadEvent.length events := by
  fun_induction read size events with
  | case1 =>
    cases h
    simp [Delivery.length, Chunk.finish, Chunk.last, total]
  | case2 rest ih =>
    have hRest := ih h
    simp only [total, ReadEvent.length]
    omega
  | case3 text rest =>
    cases h
    simp [Delivery.length, total, ReadEvent.length]
  | case4 bytes rest left' later hTake =>
    obtain ⟨rfl, rfl⟩ := Prod.mk.inj h
    have hLater : total ReadEvent.length later ≤ total ReadEvent.length (.data bytes :: rest) := by
      simp only [later, left']
      split <;> simp [total, ReadEvent.length]
    simp only [Delivery.length, Chunk.finish, Chunk.last, List.length_nil]
    omega
  | case5 bytes rest left' later hTake =>
    obtain ⟨rfl, rfl⟩ := Prod.mk.inj h
    have hLength : (bytes.take size).length + left'.length = bytes.length := by
      rw [← List.length_append, List.take_append_drop]
    simp only [later]
    split
    · simp only [Delivery.length, Chunk.more, total, ReadEvent.length]
      omega
    · simp only [Delivery.length, Chunk.more, total, ReadEvent.length]
      omega

/-- **A delivery takes its bytes off the volume.** -/
theorem volume_supply_le {s t : Source} {d : Delivery} (h : s.supply = (d, t)) :
    d.length + t.volume ≤ s.volume := by
  cases s with
  | closed =>
    cases h
    simp [Delivery.length, Chunk.finish, Chunk.last, volume]
  | queue chunks =>
    cases chunks <;> cases h <;>
      simp [Delivery.length, Chunk.finish, Chunk.last, volume, total]
  | script deliveries ending =>
    cases deliveries with
    | nil =>
      cases ending <;> cases h <;>
        simp [Ending.delivery, Delivery.length, Chunk.finish, Chunk.last, volume, total]
    | cons delivery deliveries =>
      cases h
      simp [volume, total]
  | reader size events =>
    rcases hRead : read size events with ⟨delivery, left⟩
    simp only [supply, hRead, Prod.mk.injEq] at h
    obtain ⟨rfl, rfl⟩ := h
    exact total_read_le hRead

end Source

namespace ScanBuffer

/-- The buffer that has asked its source, which is `source` afterwards. -/
def afterAsking (b : ScanBuffer) (source : Source) : ScanBuffer :=
  { b with window := b.window.dropSpent, source := source, asked := b.asked + 1 }

theorem refill_of_atEnd {b : ScanBuffer} (hEnd : b.window.atEnd = true) :
    b.refill = (.ok none, b) := by
  simp only [refill, hEnd, if_true]

theorem refill_of_failure {b : ScanBuffer} {causes : List String} {source : Source}
    (hEnd : b.window.atEnd = false) (hSupply : b.source.supply = (.failure causes, source)) :
    b.refill = (.error (.rawInput causes), b.afterAsking source) := by
  simp only [refill, hEnd, hSupply]
  rfl

theorem refill_of_chunk {b : ScanBuffer} {chunk : Chunk} {source : Source}
    (hEnd : b.window.atEnd = false) (hSupply : b.source.supply = (.chunk chunk, source)) :
    b.refill = (.ok ((b.afterAsking source).receive chunk).history.head?,
      (b.afterAsking source).receive chunk) := by
  simp only [refill, hEnd, hSupply]
  rfl

/-- **The three outcomes of a refill**: nothing to do, a failure, or a chunk taken in. -/
theorem refill_cases (b : ScanBuffer) :
    (b.window.atEnd = true ∧ b.refill = (.ok none, b)) ∨
      (∃ causes source, b.window.atEnd = false ∧ b.source.supply = (.failure causes, source) ∧
        b.refill = (.error (.rawInput causes), b.afterAsking source)) ∨
      ∃ chunk source, b.window.atEnd = false ∧ b.source.supply = (.chunk chunk, source) ∧
        b.refill = (.ok ((b.afterAsking source).receive chunk).history.head?,
          (b.afterAsking source).receive chunk) := by
  cases hEnd : b.window.atEnd with
  | true => exact .inl ⟨rfl, refill_of_atEnd hEnd⟩
  | false =>
    rcases hSupply : b.source.supply with ⟨chunk | causes, source⟩
    · exact .inr (.inr ⟨chunk, source, rfl, rfl, refill_of_chunk hEnd hSupply⟩)
    · exact .inr (.inl ⟨causes, source, rfl, rfl, refill_of_failure hEnd hSupply⟩)

theorem eq_rawInput_of_refill_error {b b' : ScanBuffer} {error : LexError}
    (h : b.refill = (.error error, b')) : ∃ causes, error = .rawInput causes := by
  rcases b.refill_cases with ⟨-, hRefill⟩ | ⟨causes, source, -, -, hRefill⟩ |
    ⟨chunk, source, -, -, hRefill⟩ <;> rw [hRefill] at h <;> cases h
  exact ⟨causes, rfl⟩

section Frame

variable {b b' : ScanBuffer} {result : Except LexError (Option Refill)}

theorem lexeme_of_refill (h : b.refill = (result, b')) : b'.window.lexeme = b.window.lexeme := by
  rcases b.refill_cases with ⟨-, hRefill⟩ | ⟨causes, source, -, -, hRefill⟩ |
    ⟨chunk, source, -, -, hRefill⟩ <;> rw [hRefill] at h <;> cases h <;> rfl

theorem lexemeStart_of_refill (h : b.refill = (result, b')) :
    b'.window.lexemeStart = b.window.lexemeStart := by
  rcases b.refill_cases with ⟨-, hRefill⟩ | ⟨causes, source, -, -, hRefill⟩ |
    ⟨chunk, source, -, -, hRefill⟩ <;> rw [hRefill] at h <;> cases h <;> rfl

/-- **A refill adds no byte.** -/
theorem volume_le_of_refill (h : b.refill = (result, b')) : b'.volume ≤ b.volume := by
  rcases b.refill_cases with ⟨-, hRefill⟩ | ⟨causes, source, -, hSupply, hRefill⟩ |
    ⟨chunk, source, -, hSupply, hRefill⟩ <;> rw [hRefill] at h <;> cases h
  · exact Nat.le_refl _
  · have hVolume := Source.volume_supply_le hSupply
    simp only [volume, afterAsking, Window.dropSpent, Delivery.length] at hVolume ⊢
    omega
  · have hVolume := Source.volume_supply_le hSupply
    simp only [volume, afterAsking, receive, Window.append, Window.dropSpent, List.length_append,
      Delivery.length] at hVolume ⊢
    omega

end Frame

theorem refills_of_refill {b b' : ScanBuffer} {r : Option Refill} (hEnd : b.window.atEnd = false)
    (h : b.refill = (.ok r, b')) : b'.refills = b.refills + 1 := by
  rcases b.refill_cases with ⟨hEnd', -⟩ | ⟨causes, source, -, -, hRefill⟩ |
    ⟨chunk, source, -, -, hRefill⟩
  · cases hEnd.symm.trans hEnd'
  · cases hRefill.symm.trans h
  · cases hRefill.symm.trans h
    rfl

/-- A refill takes one off the deliveries to come, if there are any. -/
theorem toCome_le_of_refill {b b' : ScanBuffer} {r : Option Refill} (h : b.refill = (.ok r, b')) :
    b'.toCome ≤ b.toCome - 1 := by
  cases hEnd : b.window.atEnd with
  | true =>
    rw [refill_of_atEnd hEnd] at h
    cases h
    simp [toCome, hEnd]
  | false =>
    have hLt := toCome_refill_lt (r := r) hEnd (by rw [h])
    rw [h] at hLt
    exact Nat.le_sub_one_of_lt hLt

/-- A refill after a scan brings the stream nearer to its end. -/
theorem toCome_refill_reached_lt {b b' : ScanBuffer} {lexeme pending : List UInt8}
    {r : Option Refill} (hEnd : b.window.atEnd = false)
    (hRefill : refill { b with window := b.window.reached lexeme pending } = (.ok r, b')) :
    b'.toCome < b.toCome := by
  have hLt := toCome_refill_lt (b := { b with window := b.window.reached lexeme pending })
    (r := r) hEnd (by rw [hRefill])
  rw [hRefill] at hLt
  exact hLt

end ScanBuffer

end StreamLexer
