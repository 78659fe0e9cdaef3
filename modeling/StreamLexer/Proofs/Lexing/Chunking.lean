import StreamLexer.Lexing
import StreamLexer.Proofs.Engine.Foresight

/-!
# Batch lexing and the cuts of a stream

Batch lexing sees a stream only through what remains of it: two buffers that stand at the same place
before the same bytes are lexed alike, whatever each of them still has to take in. So a stream cut
into chunks is lexed as if all its bytes were given up front. It ends with its matches, or with an
empty match before the end of the stream.

## Main results

* `Engine.collect_of_remains`: what remains of a stream fixes its matches
* `Engine.collect_outcome`: the two ends of batch lexing
* `lexAll_queue`: a stream of chunks is lexed as one given up front
-/

namespace StreamLexer

namespace Engine

variable {a : Automaton} {entry : StateId} {row : Array StateId}

/-- The next match of a stream is the same from every buffer at the same place before the same
bytes, and leaves the same bytes, which are fewer unless the match is empty. -/
theorem exists_nextMatch (hEntry : a.state? entry = some (.dispatch row)) (b : ScanBuffer)
    {rest : List UInt8} (hRest : b.Remains rest) :
    ∃ found left, (found.span.isEmpty = false → left.length < rest.length) ∧
      ∀ (backend : Backend) (b' : ScanBuffer), b'.Remains rest →
        b'.window.position = b.window.position →
          ∃ b'', (inForm backend a entry).nextMatch b' = (.ok found, b'') ∧ b''.Remains left ∧
            b''.window.position = found.span.stop ∧ b''.isExhausted = left.isEmpty := by
  obtain ⟨found, left, hFound⟩ :=
    Automaton.exists_foresees (Automaton.lt_size_of_state? hEntry) hRest.beginLexeme
  refine ⟨found, left, hFound.length_left_lt hRest, ?_⟩
  intro backend b' hRest' hPosition
  have hFound' : a.Foresees entry b'.beginLexeme found left :=
    hFound.congr hRest.beginLexeme hRest'.beginLexeme hPosition rfl
  obtain ⟨b'', hMatch, hLeft, hStop, hKnown⟩ := hFound'.nextMatch hEntry backend
  exact ⟨b'', hMatch, hLeft, hStop, hLeft.isExhausted_eq hKnown⟩

/-- **What remains of a stream fixes its matches.** -/
theorem collect_of_remains (hEntry : a.state? entry = some (.dispatch row)) (backend : Backend)
    {b b' : ScanBuffer} {rest : List UInt8} (hRest : b.Remains rest) (hRest' : b'.Remains rest)
    (hPosition : b'.window.position = b.window.position) {fuel fuel' : Nat}
    (hFuel : rest.length < fuel) (hFuel' : rest.length < fuel') (found : List Match) :
    ((inForm backend a entry).collect fuel found b).1 =
      ((inForm backend a entry).collect fuel' found b').1 := by
  -- neither side runs out of fuel
  induction fuel generalizing fuel' b b' rest found with
  | zero => omega
  | succ fuel ih =>
    obtain ⟨fuel', rfl⟩ : ∃ n, fuel' = n + 1 := ⟨fuel' - 1, by omega⟩
    obtain ⟨m, left, hLess, hNext⟩ := exists_nextMatch hEntry b hRest
    obtain ⟨c, hMatch, hLeft, hStop, hExhausted⟩ := hNext backend b hRest rfl
    obtain ⟨c', hMatch', hLeft', hStop', hExhausted'⟩ := hNext backend b' hRest' hPosition
    rw [collect, collect, hMatch, hMatch']
    dsimp only
    by_cases hSpan : m.span.isEmpty = true
    · rw [if_pos hSpan, if_pos hSpan, hExhausted, hExhausted', hStop, hStop']
      split <;> rfl
    · rw [if_neg hSpan, if_neg hSpan]
      have hLess' : left.length < rest.length := hLess (Bool.eq_false_iff.mpr hSpan)
      exact ih hLeft hLeft' (hStop'.trans hStop.symm) (by omega) (by omega) (m :: found)

/-- **Batch lexing ends** with the matches, or with an empty match before the end of the stream. -/
theorem collect_outcome (hEntry : a.state? entry = some (.dispatch row)) (backend : Backend)
    {b : ScanBuffer} {rest : List UInt8} (hRest : b.Remains rest) {fuel : Nat}
    (hFuel : rest.length < fuel) (found : List Match) :
    (∃ matches', ((inForm backend a entry).collect fuel found b).1 = .ok matches') ∨
      ∃ offset, ((inForm backend a entry).collect fuel found b).1 =
        .error (.malformed (.emptyMatch offset)) := by
  induction fuel generalizing b rest found with
  | zero => omega
  | succ fuel ih =>
    obtain ⟨m, left, hLess, hNext⟩ := exists_nextMatch hEntry b hRest
    obtain ⟨c, hMatch, hLeft, -, -⟩ := hNext backend b hRest rfl
    rw [collect, hMatch]
    dsimp only
    by_cases hSpan : m.span.isEmpty = true
    · rw [if_pos hSpan]
      by_cases hExhausted : c.isExhausted = true
      · rw [if_pos hExhausted]
        exact .inl ⟨_, rfl⟩
      · rw [if_neg hExhausted]
        exact .inr ⟨_, rfl⟩
    · rw [if_neg hSpan]
      have hLess' : left.length < rest.length := hLess (Bool.eq_false_iff.mpr hSpan)
      exact ih hLeft (by omega) (m :: found)

end Engine

/-- **A stream of chunks is lexed as one given up front.** Whatever a stream begins with, however
what follows is cut into chunks, and whichever of them is marked as the last, an engine whose
lexemes start at a dispatch state finds the matches of the bytes up to the first final chunk, or
fails with the same empty match before their end. -/
theorem lexAll_queue {a : Automaton} {entry : StateId} {row : Array StateId}
    (hEntry : a.state? entry = some (.dispatch row)) (backend : Backend) (start : List UInt8)
    (chunks : List Chunk) :
    ∃ e, Engine.ofAutomaton backend a entry = .ok e ∧
      (e.lexAll (.ofSource start (.queue chunks))).1 =
        (e.lexAll (.ofBytes (start ++ Chunk.delivered chunks))).1 ∧
      ((∃ found, (e.lexAll (.ofSource start (.queue chunks))).1 = .ok found) ∨
        ∃ offset, (e.lexAll (.ofSource start (.queue chunks))).1 =
          .error (.malformed (.emptyMatch offset))) := by
  have hCut := ScanBuffer.remains_ofSource (Source.delivers_queue chunks) start
  have hWhole := ScanBuffer.remains_ofBytes (start ++ Chunk.delivered chunks)
  refine ⟨_, Engine.ofAutomaton_of_lt (Automaton.lt_size_of_state? hEntry) backend, ?_, ?_⟩
  · exact Engine.collect_of_remains hEntry backend hCut hWhole rfl
      (Nat.lt_succ_of_le hCut.length_le_volume) (Nat.lt_succ_of_le hWhole.length_le_volume) []
  · exact Engine.collect_outcome hEntry backend hCut (Nat.lt_succ_of_le hCut.length_le_volume) []

theorem lexAll_queue_words :
    Automaton.words.state? 0 = some (.dispatch #[1, 2, 3]) ∧
      ∃ e, Engine.ofAutomaton .direct Automaton.words 0 = .ok e ∧
        (e.lexAll (.ofSource [97] (.queue [.more [], .last [98, 32], .more [99]]))).1 =
          (e.lexAll (.ofBytes [97, 98, 32])).1 ∧
        ((∃ found, (e.lexAll (.ofSource [97]
            (.queue [.more [], .last [98, 32], .more [99]]))).1 = .ok found) ∨
          ∃ offset, (e.lexAll (.ofSource [97]
            (.queue [.more [], .last [98, 32], .more [99]]))).1 =
              .error (.malformed (.emptyMatch offset))) :=
  ⟨rfl, lexAll_queue rfl .direct [97] [.more [], .last [98, 32], .more [99]]⟩

end StreamLexer
