import StreamLexer.Lexing
import StreamLexer.Proofs.Engine.Scan

/-!
# Batch lexing by tables and by programs

The two forms of an automaton lex every stream alike. Since every match but the last takes a byte
off the volume of the stream, no stream is lexed for ever: a batch ends with its matches, with an
empty match before the end of the stream, or with a failure of the source.

## Main results

* `Engine.matchFrom_text_add_volume_le`: a match takes its bytes off the volume
* `Engine.lexAll_inForm_ne_endless`: batch lexing ends
* `Engine.lexAll_inForm`: both forms lex alike
* `backends_agree`: the program of an automaton does on every window, and on every stream, what the
  tables do
-/

namespace StreamLexer

namespace Engine

variable {a : Automaton} {entry : StateId}

/-- Going on from a state ends with a failure of the source, or with a match that takes its bytes
off the volume. -/
theorem matchFrom_text_add_volume_le {s : StateId} (hs : s.toNat < a.size) (backend : Backend)
    (entry : StateId) (b : ScanBuffer) :
    (∃ causes, ((inForm backend a entry).matchFrom (backend.point s) b).1 =
      .error (.rawInput causes)) ∨
      ∃ m b', (inForm backend a entry).matchFrom (backend.point s) b = (.ok m, b') ∧
        m.span.isEmpty = m.text.isEmpty ∧
        m.text.length + b'.volume ≤ b.window.lexeme.length + b.volume := by
  refine search_induction (motive := fun s b =>
    (∃ causes, ((inForm backend a entry).matchFrom (backend.point s) b).1 =
      .error (.rawInput causes)) ∨
      ∃ m b', (inForm backend a entry).matchFrom (backend.point s) b = (.ok m, b') ∧
        m.span.isEmpty = m.text.isEmpty ∧
        m.text.length + b'.volume ≤ b.window.lexeme.length + b.volume)
    backend entry ?matched ?failed ?refilled hs b
  case matched =>
    intro s b action lexeme pending hWalks hRun
    have hBytes := congrArg List.length hWalks.text_append_pending
    simp only [List.length_append, List.length_reverse] at hBytes
    refine .inr ⟨_, _, matchFrom_of_matched hRun, isEmpty_span_matchOf _ _, ?_⟩
    simp only [matchOf, Window.text, Window.reached, Window.beginLexeme, ScanBuffer.volume,
      List.length_reverse]
    omega
  case failed =>
    intro s b q lexeme error b' hEnd _ hRun hRefill
    obtain ⟨causes, rfl⟩ := ScanBuffer.eq_rawInput_of_refill_error hRefill
    exact .inl ⟨causes, by rw [matchFrom_of_refill_error hRun hEnd hRefill]⟩
  case refilled =>
    intro s b q lexeme r b' hEnd hWalks hRun hRefill ih
    have hBytes : lexeme.length = b.window.lexeme.length + b.window.pending.length := by
      simpa using congrArg List.length hWalks.text_append_pending
    have hLexeme : b'.window.lexeme = lexeme := ScanBuffer.lexeme_of_refill hRefill
    have hVolume : b'.volume ≤ 0 + b.source.volume := ScanBuffer.volume_le_of_refill hRefill
    rw [matchFrom_of_refill_ok hRun hEnd hRefill]
    rcases ih with hFails | ⟨m, b'', hMatch, hEmpty, hLe⟩
    · exact .inl hFails
    · refine .inr ⟨m, b'', hMatch, hEmpty, ?_⟩
      have hSplit : b.volume = b.window.pending.length + b.source.volume := rfl
      rw [hLexeme] at hLe
      omega

/-- The next match fails as its source does, or takes its bytes off the volume. -/
theorem nextMatch_text_add_volume_le (hEntry : entry.toNat < a.size) (backend : Backend)
    (b : ScanBuffer) :
    (∃ causes, ((inForm backend a entry).nextMatch b).1 = .error (.rawInput causes)) ∨
      ∃ m b', (inForm backend a entry).nextMatch b = (.ok m, b') ∧
        m.span.isEmpty = m.text.isEmpty ∧ m.text.length + b'.volume ≤ b.volume := by
  have hMatch := matchFrom_text_add_volume_le hEntry backend entry b.beginLexeme
  rw [← entry_inForm] at hMatch
  simpa only [nextMatch, ScanBuffer.beginLexeme, Window.beginLexeme, ScanBuffer.volume,
    List.length_nil, Nat.zero_add] using hMatch

theorem collect_inForm_ne_endless (hEntry : entry.toNat < a.size) (backend : Backend)
    {fuel : Nat} {b : ScanBuffer} (hFuel : b.volume < fuel) (found : List Match) :
    ((inForm backend a entry).collect fuel found b).1 ≠ .error (.malformed .endless) := by
  induction fuel generalizing b found with
  | zero => omega
  | succ fuel ih =>
    rw [collect]
    rcases nextMatch_text_add_volume_le hEntry backend b with
      ⟨causes, hError⟩ | ⟨m, b', hMatch, hEmpty, hLe⟩
    · rcases hNext : (inForm backend a entry).nextMatch b with ⟨error | m, b'⟩ <;>
        simp_all
    · simp only [hMatch]
      by_cases hSpan : m.span.isEmpty = true
      · rw [if_pos hSpan]
        split <;> simp
      · rw [if_neg hSpan]
        have hText : 0 < m.text.length := by
          rw [hEmpty, List.isEmpty_iff] at hSpan
          exact List.length_pos_iff.mpr hSpan
        exact ih (by omega) (m :: found)

/-- **Batch lexing ends**: no stream makes an automaton find matches for ever. -/
theorem lexAll_inForm_ne_endless (hEntry : entry.toNat < a.size) (backend : Backend)
    (b : ScanBuffer) :
    ((inForm backend a entry).lexAll b).1 ≠ .error (.malformed .endless) :=
  collect_inForm_ne_endless hEntry backend (Nat.lt_succ_self _) []

theorem collect_inForm (hEntry : entry.toNat < a.size) (backend backend' : Backend) (fuel : Nat)
    (found : List Match) (b : ScanBuffer) :
    (inForm backend a entry).collect fuel found b =
      (inForm backend' a entry).collect fuel found b := by
  induction fuel generalizing found b with
  | zero => rfl
  | succ fuel ih => simp only [collect, nextMatch_inForm hEntry backend backend' b, ih]

/-- **Both forms lex alike**, and leave the same buffer. -/
theorem lexAll_inForm (hEntry : entry.toNat < a.size) (backend backend' : Backend)
    (b : ScanBuffer) :
    (inForm backend a entry).lexAll b = (inForm backend' a entry).lexAll b :=
  collect_inForm hEntry backend backend' _ _ b

end Engine

/-- **The program of an automaton does what the tables do.** From every state and on every window,
both stop with the same outcome and leave the same window, and the program does not fail. Whatever
a stream begins with and whatever its source delivers, both engines lex it to the same end, with the
same buffer left, and so after the same number of requests to the source. -/
theorem backends_agree (a : Automaton) (s : StateId) (hs : s.toNat < a.size) :
    (∀ w : Window, ∃ outcome w', a.run? w s = some (outcome, w') ∧
      (Program.ofAutomaton a).run w s = (.ok outcome, w')) ∧
      ∃ tables program, Engine.ofAutomaton .table a s = .ok tables ∧
        Engine.ofAutomaton .direct a s = .ok program ∧
          ∀ b : ScanBuffer, (tables.lexAll b).1 = (program.lexAll b).1 ∧
            (tables.lexAll b).2.asked = (program.lexAll b).2.asked ∧
              (tables.lexAll b).1 ≠ .error (.malformed .endless) := by
  refine ⟨fun w => ?_, Engine.inForm .table a s, Engine.inForm .direct a s,
    Engine.ofAutomaton_of_lt hs _, Engine.ofAutomaton_of_lt hs _, fun b => ?_⟩
  · obtain ⟨r, hWalks⟩ := Automaton.exists_walks hs w.atEnd w.lexeme w.pending
    exact ⟨_, _, Automaton.run?_of_walks hWalks, Program.run_ofAutomaton hWalks⟩
  · have hLexAll := Engine.lexAll_inForm hs .table .direct b
    refine ⟨by rw [hLexAll], by rw [hLexAll], ?_⟩
    exact Engine.lexAll_inForm_ne_endless hs .table b

theorem backends_agree_words :
    (2 : StateId).toNat < Automaton.words.size ∧
      (∀ w : Window, ∃ outcome w', Automaton.words.run? w 2 = some (outcome, w') ∧
        (Program.ofAutomaton Automaton.words).run w 2 = (.ok outcome, w')) ∧
        ∃ tables program, Engine.ofAutomaton .table Automaton.words 2 = .ok tables ∧
          Engine.ofAutomaton .direct Automaton.words 2 = .ok program ∧
            ∀ b : ScanBuffer, (tables.lexAll b).1 = (program.lexAll b).1 ∧
              (tables.lexAll b).2.asked = (program.lexAll b).2.asked ∧
                (tables.lexAll b).1 ≠ .error (.malformed .endless) :=
  ⟨by decide, backends_agree Automaton.words 2 (by decide)⟩

end StreamLexer
