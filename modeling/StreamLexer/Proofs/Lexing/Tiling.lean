import Mathlib.Data.List.Chain
import StreamLexer.Lexing
import StreamLexer.Proofs.Automaton.Stretch
import StreamLexer.Proofs.Engine.Foresight

/-!
# The matches of a stream tile it

Each match starts where the one before it ends, and its text is what the stream holds there. Batch
lexing goes on until a match is empty. At the end of the stream this match is the last; then the
texts of all matches, one behind the other, are the whole stream. Since every other match takes
bytes off what remains, there is at most one match more than there are bytes.

## Main definitions

* `Automaton.Finds`: a match at a place of the stream, and what it leaves
* `Automaton.Lexes`: the matches of what remains of a stream
* `Tiles`: matches cover some bytes without a gap and without an overlap

## Main results

* `Engine.nextMatch_finds`: the next match is the one at the place of the buffer
* `Engine.collect_lexes`: batch lexing collects the matches of what remains
* `Engine.collect_lexes_of_reading`: it does so if no byte leads the entry to a terminal
* `Automaton.Lexes.tiles`: the matches of what remains cover it
* `lexAll_tiles`: batch lexing ends with matches that cover the stream, or with an empty match
-/

namespace StreamLexer

namespace Automaton

/-- A match at `offset`, where `rest` remains of the stream: the walk over `rest` reports it, and
leaves `left`. -/
structure Finds (a : Automaton) (s : StateId) (offset : Nat) (rest : List UInt8) (m : Match)
    (left : List UInt8) : Prop where
  span_eq : m.span = ⟨offset, offset + m.text.length⟩
  walks : a.Walks true [] s rest ⟨.matched m.action, m.text.reverse, left⟩

/-- The matches of `rest`, which stands at `offset`, up to the empty one at the end. -/
inductive Lexes (a : Automaton) (s : StateId) : Nat → List UInt8 → List Match → Prop
  | last {offset m} : a.Finds s offset [] m [] → Lexes a s offset [] [m]
  | next {offset rest m left ms} :
      a.Finds s offset rest m left → m.text ≠ [] →
      Lexes a s (offset + m.text.length) left ms → Lexes a s offset rest (m :: ms)

variable {a : Automaton} {s : StateId} {offset : Nat} {rest left : List UInt8} {m : Match}

theorem Finds.text_append_left (h : a.Finds s offset rest m left) : m.text ++ left = rest := by
  simpa using h.walks.text_append_pending

/-- An empty match leaves what it found. -/
theorem Finds.eq_left (h : a.Finds s offset rest m left) (hText : m.text = []) : left = rest := by
  rw [← h.text_append_left, hText, List.nil_append]

theorem Finds.isEmpty_span (h : a.Finds s offset rest m left) :
    m.span.isEmpty = m.text.isEmpty := by
  rw [Bool.eq_iff_iff]
  simp [h.span_eq, Span.isEmpty]

/-- A match from a state that reads on is a stretch, and the symbol behind it leads to the action's
terminal. -/
theorem Finds.exists_stretch {row : Array StateId} (hs : a.state? s = some (.dispatch row))
    (h : a.Finds s offset rest m left) :
    ∃ q target, a.ReadsOn s m.text ∧ a.stepAll? s m.text = some q ∧
      a.step? q (.front left) = some target ∧ a.action? target = some m.action := by
  obtain ⟨x, q, target, hText, -, hReads, hState, hStep, hAction⟩ := h.walks.exists_stretch hs
  obtain rfl : m.text = x := by simpa using hText
  exact ⟨q, target, hReads, hState, hStep, hAction⟩

/-- If no byte leads to a terminal, a match is empty only where nothing remains. -/
theorem Finds.eq_nil {row : Array StateId} (hs : a.state? s = some (.dispatch row))
    (hBytes : ∀ c target, a.step? s (.byte c) = some target → a.action? target = none)
    (h : a.Finds s offset rest m left) (hText : m.text = []) : left = [] := by
  obtain ⟨q, target, -, hState, hStep, hAction⟩ := h.exists_stretch hs
  rw [hText] at hState
  obtain rfl : s = q := Option.some.inj hState
  cases left with
  | nil => rfl
  | cons c left =>
    rw [hBytes c target hStep] at hAction
    cases hAction

/-- There is one match at a place. -/
theorem Finds.unique {m' : Match} {left' : List UInt8} (h : a.Finds s offset rest m left)
    (h' : a.Finds s offset rest m' left') : m = m' ∧ left = left' := by
  obtain ⟨action, span, text⟩ := m
  obtain ⟨action', span', text'⟩ := m'
  injection h.walks.unique h'.walks with hOutcome hText hLeft
  obtain rfl : action = action' := by simpa using hOutcome
  obtain rfl : text = text' := List.reverse_injective hText
  obtain rfl : span = span' := h.span_eq.trans h'.span_eq.symm
  exact ⟨rfl, hLeft⟩

/-- What remains of a stream has one sequence of matches. -/
theorem Lexes.unique {ms ms' : List Match} (h : a.Lexes s offset rest ms)
    (h' : a.Lexes s offset rest ms') : ms = ms' := by
  induction h generalizing ms' with
  | last hFinds =>
    cases h' with
    | last hFinds' => rw [(hFinds.unique hFinds').1]
    | next hFinds' hText' _ =>
      rw [← (hFinds.unique hFinds').1] at hText'
      exact absurd (List.append_eq_nil_iff.mp hFinds.text_append_left).1 hText'
  | next hFinds hText _ ih =>
    cases h' with
    | last hFinds' =>
      rw [(hFinds.unique hFinds').1] at hText
      exact absurd (List.append_eq_nil_iff.mp hFinds'.text_append_left).1 hText
    | next hFinds' _ hRest' =>
      obtain ⟨rfl, rfl⟩ := hFinds.unique hFinds'
      rw [ih hRest']

/-- Every match stands somewhere in what remains, with the matches before it in front. -/
theorem Lexes.exists_finds {ms : List Match} (h : a.Lexes s offset rest ms) (hm : m ∈ ms) :
    ∃ before left, rest = before ++ (m.text ++ left) ∧
      a.Finds s (offset + before.length) (m.text ++ left) m left := by
  induction h with
  | last hFinds =>
    obtain rfl := List.mem_singleton.mp hm
    refine ⟨[], [], ?_, ?_⟩
    · rw [hFinds.text_append_left]
      rfl
    · rwa [hFinds.text_append_left]
  | @next offset rest first left ms hFinds hText hRest ih =>
    rcases List.mem_cons.mp hm with rfl | hm
    · exact ⟨[], left, hFinds.text_append_left.symm, by rwa [hFinds.text_append_left]⟩
    · obtain ⟨before, left, rfl, hFinds'⟩ := ih hm
      refine ⟨first.text ++ before, left, ?_, ?_⟩
      · rw [List.append_assoc]
        exact hFinds.text_append_left.symm
      · rwa [List.length_append, ← Nat.add_assoc]

/-- A match that is foreseen at the start of a lexeme is the one at that place. -/
theorem Foresees.finds {b : ScanBuffer} (h : a.Foresees s b.beginLexeme m left)
    (hRest : b.Remains rest) : a.Finds s b.window.position rest m left := by
  cases h with
  | @ofWalk _ lexeme left action hRemains hWalks =>
    obtain rfl := hRest.beginLexeme.unique hRemains
    refine ⟨?_, ?_⟩
    · simp [Engine.matchOf, Window.span, Window.position, Window.reached, Window.text,
        ScanBuffer.beginLexeme, Window.beginLexeme]
    · rw [Engine.matchOf, Window.text, List.reverse_reverse]
      exact hWalks

end Automaton

/-! ### Batch lexing collects the matches of what remains -/

namespace Engine

variable {a : Automaton} {entry : StateId} {b : ScanBuffer} {rest : List UInt8}

/-- **The next match is the one at the place of the buffer.** The buffer is exhausted behind it only
if nothing is left, and from an entry that reads on also if nothing is left. -/
theorem nextMatch_finds (hEntry : entry.toNat < a.size) (backend : Backend)
    (hRest : b.Remains rest) :
    ∃ m left b', a.Finds entry b.window.position rest m left ∧
      (inForm backend a entry).nextMatch b = (.ok m, b') ∧ b'.Remains left ∧
      b'.window.position = b.window.position + m.text.length ∧
      (b'.isExhausted = true → left = []) ∧
      ∀ row, a.state? entry = some (.dispatch row) → b'.isExhausted = left.isEmpty := by
  obtain ⟨m, left, hFound⟩ := Automaton.exists_foresees hEntry hRest.beginLexeme
  obtain ⟨b', hMatch, hLeft, hPosition, hKnown⟩ := hFound.matchFrom backend entry
  have hFinds := hFound.finds hRest
  refine ⟨m, left, b', hFinds, ?_, hLeft, ?_, hLeft.eq_nil_of_isExhausted, fun row hRow => ?_⟩
  · rw [nextMatch, entry_inForm, hMatch]
  · rw [hPosition, hFinds.span_eq]
  · exact hLeft.isExhausted_eq (hKnown row hRow)

/-- **Batch lexing collects the matches of what remains**, or meets an empty match before it knows
that nothing does. From an entry that reads on, there are then bytes behind the empty match. -/
theorem collect_lexes (hEntry : entry.toNat < a.size) (backend : Backend) (hRest : b.Remains rest)
    {fuel : Nat} (hFuel : rest.length < fuel) (found : List Match) :
    (∃ ms, ((inForm backend a entry).collect fuel found b).1 = .ok (found.reverse ++ ms) ∧
      a.Lexes entry b.window.position rest ms) ∨
      ∃ offset, ((inForm backend a entry).collect fuel found b).1 =
          .error (.malformed (.emptyMatch offset)) ∧
        ∀ row, a.state? entry = some (.dispatch row) →
          ∃ m left, m.text = [] ∧ left ≠ [] ∧ a.Finds entry offset left m left := by
  -- induction on the bytes that remain
  induction fuel generalizing b rest found with
  | zero => omega
  | succ fuel ih =>
    obtain ⟨m, left, b', hFinds, hMatch, hLeft, hPosition, hExhausted, hReads⟩ :=
      nextMatch_finds hEntry backend hRest
    have hBytes := hFinds.text_append_left
    rw [collect, hMatch]
    dsimp only
    by_cases hText : m.text = []
    · rw [if_pos (by rw [hFinds.isEmpty_span, hText]; rfl)]
      by_cases hEnd : b'.isExhausted = true
      · obtain rfl := hExhausted hEnd
        obtain rfl := hFinds.eq_left hText
        rw [if_pos hEnd]
        exact .inl ⟨[m], by rw [List.reverse_cons], .last hFinds⟩
      · obtain rfl := hFinds.eq_left hText
        rw [if_neg hEnd, hPosition, hText]
        refine .inr ⟨_, rfl, fun row hRow => ⟨m, left, hText, ?_, hFinds⟩⟩
        rw [hReads row hRow] at hEnd
        simpa using hEnd
    · rw [if_neg (by simpa [hFinds.isEmpty_span] using hText)]
      have hLess : left.length < rest.length := by
        rw [← hBytes, List.length_append]
        exact Nat.lt_add_of_pos_left (List.length_pos_iff.mpr hText)
      rcases ih hLeft (by omega) (m :: found) with ⟨ms, hOk, hLexes⟩ | hError
      · rw [hPosition] at hLexes
        refine .inl ⟨m :: ms, ?_, .next hFinds hText hLexes⟩
        rw [hOk, List.reverse_cons, List.append_assoc]
        rfl
      · exact .inr hError

/-- **Batch lexing succeeds if no byte leads the entry to a terminal.** -/
theorem collect_lexes_of_reading {row : Array StateId}
    (hEntry : a.state? entry = some (.dispatch row))
    (hBytes : ∀ c target, a.step? entry (.byte c) = some target → a.action? target = none)
    (backend : Backend) (hRest : b.Remains rest) {fuel : Nat} (hFuel : rest.length < fuel) :
    ∃ ms, ((inForm backend a entry).collect fuel [] b).1 = .ok ms ∧
      a.Lexes entry b.window.position rest ms := by
  rcases collect_lexes (Automaton.lt_size_of_state? hEntry) backend hRest hFuel [] with
    hOk | ⟨offset, -, hEmpty⟩
  · exact hOk
  · obtain ⟨m, left, hText, hLeft, hFinds⟩ := hEmpty row hEntry
    exact absurd (hFinds.eq_nil hEntry hBytes hText) hLeft

end Engine

/-! ### The matches of what remains cover it -/

/-- Matches cover `bytes`, which stand at `offset`, without a gap and without an overlap, and end
with an empty match. -/
structure Tiles (offset : Nat) (bytes : List UInt8) (ms : List Match) : Prop where
  start_eq : ∃ m, ms.head? = some m ∧ m.span.start = offset
  /-- Every match starts where the one before it ends. -/
  chain : ms.IsChain fun m m' => m'.span.start = m.span.stop
  span_eq : ∀ m ∈ ms, m.span.start ≤ m.span.stop ∧ m.text.length = m.span.length
  texts_eq : ms.flatMap Match.text = bytes
  text_ne_nil : ∀ m ∈ ms.dropLast, m.text ≠ []
  last_eq : ∃ m, ms.getLast? = some m ∧
    m.span = ⟨offset + bytes.length, offset + bytes.length⟩ ∧ m.text = []
  length_le : ms.length ≤ bytes.length + 1

namespace Automaton

variable {a : Automaton} {s : StateId} {offset : Nat} {rest left : List UInt8} {m : Match}
  {ms : List Match}

theorem Finds.span_covers (h : a.Finds s offset rest m left) :
    m.span.start ≤ m.span.stop ∧ m.text.length = m.span.length := by
  rw [h.span_eq]
  exact ⟨Nat.le_add_right _ _, (Nat.add_sub_cancel_left _ _).symm⟩

/-- **The matches of what remains cover it.** -/
theorem Lexes.tiles (h : a.Lexes s offset rest ms) : Tiles offset rest ms := by
  induction h with
  | @last offset m hFinds =>
    have hText : m.text = [] := (List.append_eq_nil_iff.mp hFinds.text_append_left).1
    have hSpan : m.span = ⟨offset, offset⟩ := by simpa [hText] using hFinds.span_eq
    exact
      { start_eq := ⟨m, rfl, by rw [hSpan]⟩
        chain := List.isChain_singleton m
        span_eq := by
          rintro _ (_ | ⟨_, ⟨⟩⟩)
          exact hFinds.span_covers
        texts_eq := by simp [hText]
        text_ne_nil := by simp
        last_eq := ⟨m, rfl, hSpan, hText⟩
        length_le := Nat.le_refl _ }
  | @next offset rest m left ms hFinds hText hRest ih =>
    obtain ⟨next, hNext, hStart⟩ := ih.start_eq
    obtain ⟨ms, rfl⟩ : ∃ ms', ms = next :: ms' := List.head?_eq_some_iff.mp hNext
    have hStop : m.span.stop = offset + m.text.length := by rw [hFinds.span_eq]
    have hBytes := hFinds.text_append_left
    have hPos := List.length_pos_iff.mpr hText
    exact
      { start_eq := ⟨m, rfl, by rw [hFinds.span_eq]⟩
        chain := List.isChain_cons_cons.mpr ⟨hStart.trans hStop.symm, ih.chain⟩
        span_eq := List.forall_mem_cons.mpr ⟨hFinds.span_covers, ih.span_eq⟩
        texts_eq := by rw [List.flatMap_cons, ih.texts_eq, hBytes]
        text_ne_nil := by
          rw [List.dropLast_cons_cons]
          exact List.forall_mem_cons.mpr ⟨hText, ih.text_ne_nil⟩
        last_eq := by
          rw [List.getLast?_cons_cons, ← hBytes, List.length_append, ← Nat.add_assoc]
          exact ih.last_eq
        length_le := by
          have hLength := ih.length_le
          rw [← hBytes, List.length_append, List.length_cons]
          omega }

end Automaton

/-- **Batch lexing tiles a stream.** Whatever a stream begins with and however what follows is cut
into chunks, batch lexing ends. The matches that it ends with cover the bytes up to the first final
chunk: the first starts at `0`, each other one where the one before it ends, each text is as long as
its span, and only the last, which stands at the end, is empty. Otherwise it ends with the error
that a match is empty before the end. -/
theorem lexAll_tiles {a : Automaton} {entry : StateId} (hEntry : entry.toNat < a.size)
    (backend : Backend) (start : List UInt8) (chunks : List Chunk) :
    ∃ e, Engine.ofAutomaton backend a entry = .ok e ∧
      ((∃ ms, (e.lexAll (.ofSource start (.queue chunks))).1 = .ok ms ∧
          Tiles 0 (start ++ Chunk.delivered chunks) ms) ∨
        ∃ offset, (e.lexAll (.ofSource start (.queue chunks))).1 =
          .error (.malformed (.emptyMatch offset))) := by
  have hRemains := ScanBuffer.remains_ofSource (Source.delivers_queue chunks) start
  refine ⟨_, Engine.ofAutomaton_of_lt hEntry backend, ?_⟩
  rcases Engine.collect_lexes hEntry backend hRemains
    (Nat.lt_succ_of_le hRemains.length_le_volume) [] with ⟨ms, hOk, hLexes⟩ | hError
  · exact .inl ⟨ms, hOk, hLexes.tiles⟩
  · obtain ⟨offset, hEmpty, -⟩ := hError
    exact .inr ⟨offset, hEmpty⟩

/-- Every byte is a blank or part of a word. -/
theorem Automaton.words_reads (c : UInt8) (target : StateId)
    (h : words.step? 0 (.byte c) = some target) : words.action? target = none := by
  have hLt := words.classOf_lt_classCount (.byte c)
  have hNe : (words.classOf (.byte c)).toNat ≠ 2 := fun hEof =>
    words.wellFormed.byte_ne_eof c (UInt16.toNat_inj.mp (hEof.trans (by decide +kernel)))
  have hCount : words.classCount = 3 := by decide +kernel
  have hRow : #[1, 2, 3][(words.classOf (.byte c)).toNat]? = some target := h
  obtain hClass | hClass : (words.classOf (.byte c)).toNat = 0 ∨
      (words.classOf (.byte c)).toNat = 1 := by omega
  · rw [hClass] at hRow
    obtain rfl : 1 = target := Option.some.inj hRow
    rfl
  · rw [hClass] at hRow
    obtain rfl : 2 = target := Option.some.inj hRow
    rfl

/-- A word and a blank; the chunk behind the final one is no part of the stream. -/
theorem lexAll_tiles_words :
    (0 : StateId).toNat < Automaton.words.size ∧
      ∃ e, Engine.ofAutomaton .direct Automaton.words 0 = .ok e ∧
        ∃ ms, (e.lexAll (.ofSource [97] (.queue [.more [], .last [98, 32], .more [99]]))).1 =
            .ok ms ∧ Tiles 0 [97, 98, 32] ms := by
  have hEntry : (0 : StateId).toNat < Automaton.words.size := by decide
  obtain ⟨e, hEngine, hTiles⟩ :=
    lexAll_tiles hEntry .direct [97] [.more [], .last [98, 32], .more [99]]
  refine ⟨hEntry, e, hEngine, hTiles.resolve_right ?_⟩
  rintro ⟨offset, hError⟩
  obtain ⟨-, rfl⟩ := Engine.ofAutomaton_eq_ok_iff.mp hEngine
  have hRemains := ScanBuffer.remains_ofSource
    (Source.delivers_queue [.more [], .last [98, 32], .more [99]]) [97]
  have hRow : Automaton.words.state? 0 = some (.dispatch #[1, 2, 3]) := rfl
  obtain ⟨ms, hOk, -⟩ := Engine.collect_lexes_of_reading hRow
    Automaton.words_reads .direct hRemains (Nat.lt_succ_of_le hRemains.length_le_volume)
  cases hOk.symm.trans hError

end StreamLexer
