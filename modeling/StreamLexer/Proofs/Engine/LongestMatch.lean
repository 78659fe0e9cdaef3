import StreamLexer.Proofs.Automaton.Stretch
import StreamLexer.Proofs.Engine.Foresight

/-!
# The next match is the longest

What remains of a stream fixes its next match, and the walk over all that remains says which match
that is: the longest stretch that the entry reads on over, under the action of the terminal that the
symbol behind the stretch leads to. However the stream is cut, the next match is that one; the
stream then stands behind it, and the symbol that ended it is still to be read. From a terminal,
the next match is empty and nothing is asked of the source.

## Main results

* `Automaton.Foresees.exists_longest`: the match to come is the longest stretch
* `Engine.nextMatch_of_terminal`: a terminal as the entry
* `nextMatch_longest`: the next match of a stream of chunks
-/

namespace StreamLexer

namespace ScanBuffer

theorem Remains.peek?_eq {b : ScanBuffer} {rest : List UInt8} (h : b.Remains rest)
    (hDry : b.window.isDry = false) : b.window.peek? = some (.front rest) := by
  cases h with
  | ended hEnd =>
    cases hPending : b.window.pending <;> simp [Window.peek?, Symbol.front, hPending, hEnd]
  | ahead hEnd _ =>
    obtain ⟨c, pending, hPending⟩ : ∃ c pending, b.window.pending = c :: pending := by
      apply List.exists_cons_of_ne_nil
      simpa [Window.isDry, hEnd] using hDry
    simp only [Window.peek?, hPending, List.cons_append, Symbol.front]

end ScanBuffer

/-- **The match to come is the longest stretch.** From a dispatch state at the start of a lexeme, it
has the longest stretch for its bytes and the action of the terminal behind it. -/
theorem Automaton.Foresees.exists_longest {a : Automaton} {s : StateId} {row : Array StateId}
    {b : ScanBuffer} {rest left : List UInt8} {found : Match}
    (hs : a.state? s = some (.dispatch row)) (h : a.Foresees s b.beginLexeme found left)
    (hRest : b.Remains rest) :
    ∃ x q target, rest = x ++ left ∧ a.Longest s rest x ∧ a.stepAll? s x = some q ∧
      a.step? q (.front left) = some target ∧ a.action? target = some found.action ∧
        found.text = x ∧ found.span = ⟨b.window.position, b.window.position + x.length⟩ := by
  cases h with
  | @ofWalk _ lexeme left action hRemains hWalks =>
    obtain rfl := hRest.beginLexeme.unique hRemains
    obtain ⟨x, q, target, hLexeme, rfl, hReads, hState, hStep, hAction⟩ := hWalks.exists_stretch hs
    obtain rfl : lexeme = x.reverse := by
      rw [hLexeme]
      exact List.append_nil _
    refine ⟨x, q, target, rfl, longest_of_action hReads hState hStep hAction, hState, hStep,
      hAction, ?_, ?_⟩
    · exact List.reverse_reverse x
    · simp [Engine.matchOf, Window.span, Window.position, Window.reached, ScanBuffer.beginLexeme,
        Window.beginLexeme]

namespace Engine

/-- From a terminal, the next match is empty, and the buffer is only at the start of a lexeme. -/
theorem nextMatch_of_terminal {a : Automaton} {entry : StateId} {action : ActionId}
    (h : a.state? entry = some (.terminal action)) (backend : Backend) (b : ScanBuffer) :
    (inForm backend a entry).nextMatch b =
      (.ok ⟨action, ⟨b.window.position, b.window.position⟩, []⟩, b.beginLexeme) := by
  have hRun := run_inForm (w := b.beginLexeme.window) (.terminal h) backend entry
  rw [nextMatch, entry_inForm, matchFrom_of_matched hRun]
  simp [matchOf, Window.span, Window.text, Window.position, Window.reached, ScanBuffer.beginLexeme,
    Window.beginLexeme]

end Engine

/-- **The next match of a stream of chunks is the longest.** Whatever the window holds and however
what follows is cut into chunks, let `rest` be the bytes still to come. From a terminal, the next
match is its action and empty, and nothing is read. From a dispatch state, there is a longest
stretch of `rest` over which every transition goes to a dispatch state; the symbol behind it leads
to a terminal, and the next match is that terminal's action with the stretch for its text. The
stream then stands behind the stretch, with the symbol that ended it in sight and unread. -/
theorem nextMatch_longest {a : Automaton} {entry : StateId} (hEntry : entry.toNat < a.size)
    (backend : Backend) {b : ScanBuffer} {chunks : List Chunk} (hSource : b.source = .queue chunks)
    {rest : List UInt8}
    (hRest : rest = b.window.pending ++ if b.window.atEnd then [] else Chunk.delivered chunks) :
    ∃ e, Engine.ofAutomaton backend a entry = .ok e ∧
      (∀ action, a.state? entry = some (.terminal action) →
        e.nextMatch b =
          (.ok ⟨action, ⟨b.window.position, b.window.position⟩, []⟩, b.beginLexeme)) ∧
      ∀ row, a.state? entry = some (.dispatch row) →
        (∃ x, a.Longest entry rest x) ∧
        ∀ x, a.Longest entry rest x → ∃ left q target action b', rest = x ++ left ∧
          a.stepAll? entry x = some q ∧ a.step? q (.front left) = some target ∧
          a.action? target = some action ∧
          e.nextMatch b =
            (.ok ⟨action, ⟨b.window.position, b.window.position + x.length⟩, x⟩, b') ∧
          b'.window.position = b.window.position + x.length ∧ b'.Remains left ∧
          b'.window.peek? = some (.front left) := by
  refine ⟨_, Engine.ofAutomaton_of_lt hEntry backend, fun action hState => ?_, fun row hState => ?_⟩
  · exact Engine.nextMatch_of_terminal hState backend b
  · have hRemains : b.Remains rest := hRest ▸ ScanBuffer.remains_of_queue hSource
    obtain ⟨found, left, hFound⟩ := Automaton.exists_foresees hEntry hRemains.beginLexeme
    obtain ⟨x, q, target, hSplit, hLongest, hTo, hStep, hAction, hText, hSpan⟩ :=
      hFound.exists_longest hState hRemains
    obtain ⟨b', hMatch, hLeft, hPosition, hKnown⟩ := hFound.nextMatch hState backend
    refine ⟨⟨x, hLongest⟩, fun x' hLongest' => ?_⟩
    obtain rfl := hLongest.unique hLongest'
    refine ⟨left, q, target, found.action, b', hSplit, hTo, hStep, hAction, ?_, ?_, hLeft,
      hLeft.peek?_eq hKnown⟩
    · rw [hMatch, ← hSpan, ← hText]
    · rw [hPosition, hSpan]

/-- A word that begins in the window, goes on in a later chunk and ends at a blank. -/
theorem nextMatch_longest_words :
    (0 : StateId).toNat < Automaton.words.size ∧
      (ScanBuffer.ofSource [97] (.queue [.more [], .last [98, 32], .more [99]])).source =
        .queue [.more [], .last [98, 32], .more [99]] ∧
      [97, 98, 32] = [97] ++ Chunk.delivered [.more [], .last [98, 32], .more [99]] ∧
      ∃ e b', Engine.ofAutomaton .direct Automaton.words 0 = .ok e ∧
        e.nextMatch (.ofSource [97] (.queue [.more [], .last [98, 32], .more [99]])) =
          (.ok ⟨2, ⟨0, 2⟩, [97, 98]⟩, b') ∧
        b'.window.position = 2 ∧ b'.Remains [32] ∧ b'.window.peek? = some (.byte 32) := by
  have hFirst : Automaton.words.step? 0 (.byte 97) = some 2 := by decide +kernel
  have hSecond : Automaton.words.step? 2 (.byte 98) = some 2 := by decide +kernel
  have hTo : Automaton.words.stepAll? 0 [97, 98] = some 2 := by decide +kernel
  have hStop : Automaton.words.step? 2 (.front [32]) = some 5 := by decide +kernel
  have hReads : Automaton.words.ReadsOn 0 [97, 98] :=
    .cons hFirst rfl (.cons hSecond rfl Automaton.readsOn_nil)
  have hLongest : Automaton.words.Longest 0 [97, 98, 32] [97, 98] :=
    Automaton.longest_of_action hReads hTo hStop rfl
  obtain ⟨e, hEngine, -, hNext⟩ := @nextMatch_longest Automaton.words 0 (by decide) .direct
    (.ofSource [97] (.queue [.more [], .last [98, 32], .more [99]])) _ rfl [97, 98, 32] rfl
  obtain ⟨left, q, target, action, b', hSplit, hTo', hStop', hAction, hMatch, hPosition, hLeft,
    hPeek⟩ := (hNext #[1, 2, 3] rfl).2 _ hLongest
  obtain rfl : [32] = left :=
    List.append_cancel_left (show [97, 98] ++ [32] = [97, 98] ++ left from hSplit)
  obtain rfl : 2 = q := Option.some.inj (hTo.symm.trans hTo')
  obtain rfl : 5 = target := Option.some.inj (hStop.symm.trans hStop')
  obtain rfl : 2 = action := Option.some.inj hAction
  exact ⟨by decide, rfl, rfl, e, b', hEngine, hMatch, hPosition, hLeft, hPeek⟩

end StreamLexer
