import StreamLexer.Proofs.Input.Usage
import StreamLexer.Proofs.Lexing.Chunking

/-!
# Streams that are read in pieces

A reader is asked for up to so many bytes, and each read brings as many of those that have arrived.
What it leaves waits for the next read. A read that is interrupted is repeated, and a read that
comes back empty ends the stream. So the pieces, put together, are the bytes that arrive before the
first empty read, however they were cut and wherever a read was interrupted, and the stream is lexed
as if these bytes were given up front.

## Main definitions

* `ReadEvent.Steady`: no read fails
* `ReadEvent.arriving`: the bytes that arrive before the first empty read
* `ReadEvent.uninterrupted`: what happens to a reader, but for the interruptions

## Main results

* `Source.read_cases`: what a read brings
* `Source.delivers_reader`: a reader delivers the bytes that arrive
* `Source.deliveries_uninterrupted`: interruptions do not show
* `lexAll_reader`: a stream that is read is lexed as one given up front
-/

namespace StreamLexer

namespace ReadEvent

/-- No read fails. -/
def Steady (events : List ReadEvent) : Prop := ∀ text, .failure text ∉ events

/-- The bytes that an event brings. -/
def bytes : ReadEvent → List UInt8
  | data bytes => bytes
  | _ => []

/-- The bytes that arrive before the first empty read, or before nothing is left to happen. -/
def arriving (events : List ReadEvent) : List UInt8 :=
  (events.takeWhile (· ≠ .data [])).flatMap bytes

/-- What happens to a reader, but for the interruptions. -/
def uninterrupted (events : List ReadEvent) : List ReadEvent := events.filter (· ≠ .interrupted)

variable {rest : List ReadEvent} {bytes : List UInt8} {event : ReadEvent}

theorem Steady.of_cons (h : Steady (event :: rest)) : Steady rest :=
  fun text hMem => h text (List.mem_cons_of_mem event hMem)

theorem Steady.cons_data (h : Steady rest) : Steady (.data bytes :: rest) := by
  intro text hMem
  rcases List.mem_cons.mp hMem with hFirst | hRest
  · cases hFirst
  · exact h text hRest

theorem arriving_data_nil : arriving (.data [] :: rest) = [] := rfl

theorem arriving_data (hNe : bytes ≠ []) :
    arriving (.data bytes :: rest) = bytes ++ arriving rest := by
  unfold arriving
  rw [List.takeWhile_cons_of_pos (by simpa using hNe)]
  rfl

end ReadEvent

namespace Source

open ReadEvent

variable {size : Nat} {events : List ReadEvent}

/-! ### One read -/

/-- **What a read brings**: the end of the stream, if no more bytes arrive, or some of the next
bytes, at most as many as it asked for. -/
theorem read_cases (hSize : 0 < size) (hSteady : Steady events) :
    (∃ left, read size events = (.chunk .finish, left) ∧ Steady left ∧ arriving events = []) ∨
      ∃ piece left, read size events = (.chunk (.more piece), left) ∧ Steady left ∧
        arriving events = piece ++ arriving left ∧ piece ≠ [] ∧ piece.length ≤ size := by
  fun_induction read size events with
  | case1 => exact .inl ⟨[], rfl, hSteady, rfl⟩
  | case2 rest ih => exact ih hSteady.of_cons
  | case3 text rest => exact absurd List.mem_cons_self (hSteady text)
  | case4 bytes rest left later hTake =>
    have hNil : bytes = [] := by
      rcases List.take_eq_nil_iff.mp hTake with hZero | hNil
      · omega
      · exact hNil
    subst hNil
    refine .inl ⟨later, rfl, ?_, arriving_data_nil⟩
    simpa [later, left] using hSteady.of_cons
  | case5 bytes rest left later hTake =>
    have hNe : bytes ≠ [] := by
      rintro rfl
      exact hTake List.take_nil
    refine .inr ⟨bytes.take size, later, rfl, ?_, ?_, hTake, List.length_take_le size bytes⟩
    · unfold later
      split
      · exact hSteady.of_cons
      · exact hSteady.of_cons.cons_data
    · have hLater : arriving later = left ++ arriving rest := by
        unfold later
        split
        · next hEmpty => rw [List.isEmpty_iff.mp hEmpty, List.nil_append]
        · next hEmpty => exact arriving_data (by simpa using hEmpty)
      rw [arriving_data hNe, hLater, ← List.append_assoc, List.take_append_drop]

/-- A read repeats what is interrupted, and so brings the same without the interruptions. -/
theorem read_uninterrupted (size : Nat) (events : List ReadEvent) :
    read size (uninterrupted events) =
      ((read size events).1, uninterrupted (read size events).2) := by
  induction events with
  | nil => rfl
  | cons event rest ih =>
    cases event with
    | interrupted => exact ih
    | failure text => rfl
    | data bytes =>
      have hFilter : uninterrupted (.data bytes :: rest) = .data bytes :: uninterrupted rest := rfl
      rw [hFilter, read, read]
      by_cases hLeft : (bytes.drop size).isEmpty = true
      · rw [if_pos hLeft, if_pos hLeft]
        split <;> rfl
      · rw [if_neg hLeft, if_neg hLeft]
        split <;> rfl

/-! ### Read after read -/

theorem supply_reader (size : Nat) (events : List ReadEvent) :
    (reader size events).supply = ((read size events).1, reader size (read size events).2) := rfl

/-- **A reader delivers the bytes that arrive.** -/
theorem delivers_reader (hSize : 0 < size) (hSteady : Steady events) :
    (reader size events).Delivers (arriving events) := by
  induction hn : eventsAhead events using Nat.strongRecOn generalizing events with
  | ind n ih =>
    subst hn
    rcases read_cases hSize hSteady with
      ⟨left, hRead, -, hNone⟩ | ⟨piece, left, hRead, hLeft, hBytes, -, -⟩
    · have hSupply : (reader size events).supply = (.chunk .finish, reader size left) := by
        rw [supply_reader, hRead]
      rw [hNone]
      exact .last hSupply rfl
    · have hSupply : (reader size events).supply = (.chunk (.more piece), reader size left) := by
        rw [supply_reader, hRead]
      rw [hBytes]
      exact .more hSupply rfl (ih _ (eventsAhead_read_lt hRead rfl) hLeft rfl)

/-- A reader stays a reader of pieces of the same size. -/
theorem exists_after_reader (hSize : 0 < size) (hSteady : Steady events) (n : Nat) :
    ∃ left, (reader size events).after n = reader size left ∧ Steady left := by
  induction n with
  | zero => exact ⟨events, rfl, hSteady⟩
  | succ n ih =>
    obtain ⟨left, hAfter, hLeft⟩ := ih
    rw [after, hAfter, supply_reader]
    rcases read_cases hSize hLeft with ⟨later, hRead, hLater, -⟩ | ⟨piece, later, hRead, hLater, -⟩
    · exact ⟨later, by rw [hRead], hLater⟩
    · exact ⟨later, by rw [hRead], hLater⟩

/-- **The pieces that are read** are not empty and not too long, but for the end of the stream. -/
theorem exists_piece_of_mem_deliveries (hSize : 0 < size) (hSteady : Steady events) {n : Nat}
    {d : Delivery} (hMem : d ∈ (reader size events).deliveries n) :
    ∃ chunk, d = .chunk chunk ∧
      (chunk.final = false → chunk.bytes ≠ [] ∧ chunk.bytes.length ≤ size) := by
  induction n with
  | zero => cases hMem
  | succ n ih =>
    rcases List.mem_append.mp hMem with hBefore | hLast
    · exact ih hBefore
    · obtain ⟨left, hAfter, hLeft⟩ := exists_after_reader hSize hSteady n
      obtain rfl := List.mem_singleton.mp hLast
      rw [hAfter, supply_reader]
      rcases read_cases hSize hLeft with
        ⟨later, hRead, -⟩ | ⟨piece, later, hRead, -, -, hNe, hLength⟩
      · refine ⟨.finish, by rw [hRead], fun hMore => ?_⟩
        cases hMore
      · exact ⟨.more piece, by rw [hRead], fun _ => ⟨hNe, hLength⟩⟩

/-- **Interruptions do not show.** -/
theorem deliveries_uninterrupted (size : Nat) (events : List ReadEvent) (n : Nat) :
    (reader size (uninterrupted events)).deliveries n = (reader size events).deliveries n := by
  -- delivery by delivery, the two differ in the interruptions only
  have hAlike : ∀ n, ∃ left, (reader size events).after n = reader size left ∧
      (reader size (uninterrupted events)).after n = reader size (uninterrupted left) := by
    intro n
    induction n with
    | zero => exact ⟨events, rfl, rfl⟩
    | succ n ih =>
      obtain ⟨left, hAfter, hAfter'⟩ := ih
      refine ⟨(read size left).2, ?_, ?_⟩
      · rw [after, hAfter, supply_reader]
      · rw [after, hAfter', supply_reader, read_uninterrupted]
  induction n with
  | zero => rfl
  | succ n ih =>
    obtain ⟨left, hAfter, hAfter'⟩ := hAlike n
    rw [deliveries, deliveries, ih, hAfter, hAfter', supply_reader, supply_reader,
      read_uninterrupted]

end Source

/-- **A stream that is read is lexed as one given up front.** Let bytes arrive in any pieces, with
reads that are interrupted or come back empty anywhere among them, and none that fails. A reader
that is asked for any number of bytes at a time, and for one instead of none, makes an engine whose
lexemes start at a dispatch state find the matches of all bytes that arrive before the first empty
read, or the same empty match before their end. However often the reader is asked, it hands out
chunks: each is the end of the stream, or has at least one byte and at most as many as were asked
for. Those before the end make up the bytes that arrive, and they are the same without the
interruptions, so that none of these loses or repeats a byte. -/
theorem lexAll_reader {a : Automaton} {entry : StateId} {row : Array StateId}
    (hEntry : a.state? entry = some (.dispatch row)) (backend : Backend) (start : List UInt8)
    (size : Nat) {events : List ReadEvent} (hSteady : ReadEvent.Steady events) :
    (∃ e, Engine.ofAutomaton backend a entry = .ok e ∧
      (e.lexAll (.ofSource start (.ofReader size events))).1 =
        (e.lexAll (.ofBytes (start ++ ReadEvent.arriving events))).1) ∧
      (Source.ofReader size events).Delivers (ReadEvent.arriving events) ∧
      ∀ n, (Source.ofReader size (ReadEvent.uninterrupted events)).deliveries n =
          (Source.ofReader size events).deliveries n ∧
        ∀ d ∈ (Source.ofReader size events).deliveries n, ∃ chunk, d = .chunk chunk ∧
          (chunk.final = false → chunk.bytes ≠ [] ∧ chunk.bytes.length ≤ max size 1) := by
  have hSize : 0 < max size 1 := by omega
  have hDelivers : (Source.ofReader size events).Delivers (ReadEvent.arriving events) :=
    Source.delivers_reader hSize hSteady
  refine ⟨⟨_, Engine.ofAutomaton_of_lt (Automaton.lt_size_of_state? hEntry) backend, ?_⟩,
    hDelivers, fun n => ⟨Source.deliveries_uninterrupted _ events n, fun d hMem =>
      Source.exists_piece_of_mem_deliveries hSize hSteady hMem⟩⟩
  have hRead := ScanBuffer.remains_ofSource hDelivers start
  have hWhole := ScanBuffer.remains_ofBytes (start ++ ReadEvent.arriving events)
  exact Engine.collect_of_remains hEntry backend hRead hWhole rfl
    (Nat.lt_succ_of_le hRead.length_le_volume) (Nat.lt_succ_of_le hWhole.length_le_volume) []

/-- A word is read byte by byte, with interruptions; what arrives behind the empty read is no part
of the stream. -/
theorem lexAll_reader_words :
    Automaton.words.state? 0 = some (.dispatch #[1, 2, 3]) ∧
      ReadEvent.Steady
        [.interrupted, .data [98, 32], .interrupted, .interrupted, .data [], .data [99]] ∧
      (∃ e, Engine.ofAutomaton .direct Automaton.words 0 = .ok e ∧
        (e.lexAll (.ofSource [97] (.ofReader 0
            [.interrupted, .data [98, 32], .interrupted, .interrupted, .data [], .data [99]]))).1 =
          (e.lexAll (.ofBytes [97, 98, 32])).1) ∧
      Source.deliveries (.ofReader 0
          [.interrupted, .data [98, 32], .interrupted, .interrupted, .data [], .data [99]]) 3 =
        [.chunk (.more [98]), .chunk (.more [32]), .chunk .finish] := by
  have hSteady : ReadEvent.Steady
      [.interrupted, .data [98, 32], .interrupted, .interrupted, .data [], .data [99]] := by
    intro text hMem
    simp at hMem
  have hEntry : Automaton.words.state? 0 = some (.dispatch #[1, 2, 3]) := rfl
  obtain ⟨hLex, -⟩ := lexAll_reader hEntry .direct [97] 0 hSteady
  exact ⟨hEntry, hSteady, hLex, rfl⟩

end StreamLexer
