import StreamLexer.Proofs.Rule.Lexeme

/-!
# The verdict on an empty match

An empty match would be found again for ever, unless it stands at the end of the stream. Both batch
lexing and a rule that is invoked ask the buffer whether the stream is at its end there: they accept
the match if it is, and refuse it otherwise. The buffer knows what the source has announced so far.
If the end was announced before, or if the search for the match looks for a symbol, the verdict is
the one on the whole stream, however it is delivered. A search from a terminal looks for none: before
the end of an empty stream is announced, its match is refused.

## Main results

* `end_verdict`: the verdict of batch lexing, and that of a rule
* `end_verdict_unannounced`: the same empty stream, with its end announced and unannounced
-/

namespace StreamLexer

variable {n : Nat} {P R : Type}

/-- A rule refuses an empty match behind which the buffer is not exhausted. -/
theorem RuleSet.verdict_of_not_exhausted {rules : RuleSet n P R} {i : Fin n} {m : Match}
    (hSpan : m.span.isEmpty = true) (params : P) :
    rules.verdict i m false params =
      ([], .fail (.malformed
        (.ruleEmptyMatch (rules.rule i).name m.action m.span.start))) := by
  rw [verdict, hSpan]
  rfl

/-- A rule hands any other match to its action. -/
theorem RuleSet.verdict_of_action {rules : RuleSet n P R} {i : Fin n} {m : Match}
    {exhausted : Bool} {act : Action n P R} (hMatch : m.span.isEmpty = false ∨ exhausted = true)
    (hAction : (rules.rule i).actions[m.action.toNat]? = some act) (params : P) :
    rules.verdict i m exhausted params = ([(i, m, params)], act m params) := by
  have hAccepts : (m.span.isEmpty && !exhausted) = false := by
    rcases hMatch with hSpan | rfl
    · rw [hSpan]
      rfl
    · exact Bool.and_false _
  simp only [verdict, hAccepts, hAction]
  rfl

/-- **The verdict at the end of a stream.** An engine is made for any automaton, in any form, and a
rule for the engine; `rest` remains of the stream of a buffer, however its source delivers it.

Batch lexing stops at the first empty match. If nothing is left there, so that the match stands at
the end of the stream, and the end shows, it stops with all matches up to this one; if bytes are
left, or the end does not show, it stops with the error that the match at this offset is empty. The
matches and the offset do not depend on the delivery.

The rule is invoked on the buffer. If its match is empty, and nothing remains, and the end shows, the
match is handed to its action, and the invocation goes on as the action decides; otherwise the
invocation fails with the error that the match at this offset is empty, and no action is called.

The end shows if it was announced before, as for bytes that are given up front, or if the entry is a
state that looks for a symbol. -/
theorem end_verdict {backend : Backend} {a : Automaton} {entry : StateId} {e : Engine}
    (hEngine : Engine.ofAutomaton backend a entry = .ok e) {rules : RuleSet n P R} {i : Fin n}
    {name : String} {actions : Array (Action n P R)} {hooked : Bool}
    (hRule : Rule.ofParts name e actions hooked = .ok (rules.rule i)) {b : ScanBuffer}
    {rest : List UInt8} (hRest : b.Remains rest) (params : P) :
    (∃ found m left, a.UpToEmpty entry b.window.position rest found m left ∧
      m.span.start + left.length = b.window.position + rest.length ∧
      (left = [] → a.SeesEnd entry b → (e.lexAll b).1 = .ok (found ++ [m])) ∧
      (¬ (left = [] ∧ a.SeesEnd entry b) →
        (e.lexAll b).1 = .error (.malformed (.emptyMatch m.span.start)))) ∧
    ∃ m left, a.Finds entry b.window.position rest m left ∧
      (m.text = [] → rest = [] → a.SeesEnd entry b →
        ∃ act b', (rules.rule i).actions[m.action.toNat]? = some act ∧ b'.Remains [] ∧
          rules.ComesTo (rules.start i b params) [(i, m, params)]
            (rules.enact b' (act m params))) ∧
      (m.text = [] → ¬ (rest = [] ∧ a.SeesEnd entry b) →
        ∃ b', rules.ComesTo (rules.start i b params) []
          (.failed (.malformed (.ruleEmptyMatch name m.action m.span.start)) b')) := by
  obtain ⟨hEntry, rfl⟩ := Engine.ofAutomaton_eq_ok_iff.mp hEngine
  have hParts := (Rule.ofParts_eq_ok_iff.mp hRule).1
  refine ⟨?_, ?_⟩
  · obtain ⟨found, m, left, hUpTo⟩ := Automaton.exists_upToEmpty hEntry b.window.position rest
    obtain ⟨-, -, hStart⟩ := hUpTo.span_eq
    exact ⟨found, m, left, hUpTo, hStart, Engine.lexAll_upToEmpty hEntry backend hRest hUpTo⟩
  · have hSame : Engine.ofAutomaton backend a entry = .ok (rules.rule i).engine := by
      rw [hParts]
      exact hEngine
    obtain ⟨m, left, exhausted, hFinds, hExhausted, hAwaits⟩ :=
      RuleSet.exists_awaits hSame hRest params
    obtain ⟨act, hAct⟩ := Rule.exists_action hRule hFinds
    obtain ⟨b', hLeft, -, hComes⟩ := hAwaits.comesTo
    refine ⟨m, left, hFinds, fun hText hNil hSees => ?_, fun hText hNot => ?_⟩
    · obtain rfl := hFinds.eq_left hText
      subst hNil
      have hVerdict : rules.verdict (rules.start i b params).rule m exhausted
          (rules.start i b params).params = ([(i, m, params)], act m params) :=
        RuleSet.verdict_of_action (.inr (hExhausted.mpr ⟨rfl, hSees⟩)) hAct params
      rw [hVerdict] at hComes
      exact ⟨act, b', hAct, hLeft, hComes⟩
    · obtain rfl := hFinds.eq_left hText
      have hSpan : m.span.isEmpty = true := by
        rw [hFinds.isEmpty_span, hText]
        rfl
      obtain rfl : exhausted = false :=
        Bool.eq_false_iff.mpr fun hTrue => hNot (hExhausted.mp hTrue)
      have hVerdict : rules.verdict (rules.start i b params).rule m false
          (rules.start i b params).params =
            ([], .fail (.malformed (.ruleEmptyMatch name m.action m.span.start))) := by
        rw [RuleSet.verdict_of_not_exhausted hSpan]
        simp only [RuleSet.start, hParts]
      rw [hVerdict] at hComes
      exact ⟨b', hComes⟩

/-- An empty stream whose end the source has yet to announce. -/
theorem end_verdict_wordCount :
    Engine.ofAutomaton .table Automaton.words 0 = .ok (wordCount.rule 0).engine ∧
      Rule.ofParts "words" (wordCount.rule 0).engine (wordCount.rule 0).actions true =
        .ok (wordCount.rule 0) ∧
      (ScanBuffer.ofSource [] (.queue [])).Remains [] ∧
      (∃ found m, ((wordCount.rule 0).engine.lexAll (.ofSource [] (.queue []))).1 =
        .ok (found ++ [m])) ∧
      ∃ m next, m.text = [] ∧
        wordCount.ComesTo (wordCount.start 0 (.ofSource [] (.queue [])) 0) [(0, m, 0)] next := by
  have hEngine : Engine.ofAutomaton .table Automaton.words 0 = .ok (wordCount.rule 0).engine := rfl
  have hRule : Rule.ofParts "words" (wordCount.rule 0).engine (wordCount.rule 0).actions true =
      .ok (wordCount.rule 0) := rfl
  have hRest : (ScanBuffer.ofSource [] (.queue [])).Remains [] :=
    ScanBuffer.remains_ofSource (Source.delivers_queue []) []
  have hSees : Automaton.words.SeesEnd 0 (.ofSource [] (.queue [])) := .inr ⟨#[1, 2, 3], rfl⟩
  obtain ⟨⟨found, m, left, -, hLength, hOk, -⟩, m', left', hFinds, hAccepts, -⟩ :=
    end_verdict hEngine hRule hRest 0
  have hNil : left = [] := List.length_eq_zero_iff.mp (Nat.eq_zero_of_add_eq_zero_left hLength)
  have hText : m'.text = [] := (List.append_eq_nil_iff.mp hFinds.text_append_left).1
  obtain ⟨act, b', -, -, hComes⟩ := hAccepts hText rfl hSees
  exact ⟨hEngine, hRule, hRest, ⟨found, m, hOk hNil hSees⟩, m', _, hText, hComes⟩

/-- The same empty stream from a terminal: the match at its end is accepted if the end is announced,
and refused if it is not. -/
theorem end_verdict_unannounced :
    ∃ e, Engine.ofAutomaton .table Automaton.words 3 = .ok e ∧
      (e.lexAll (.ofBytes [])).1 = .ok [⟨0, ⟨0, 0⟩, []⟩] ∧
      (e.lexAll (.ofSource [] (.queue []))).1 = .error (.malformed (.emptyMatch 0)) := by
  have hEntry : (3 : StateId).toNat < Automaton.words.size := by decide
  have hUpTo : Automaton.words.UpToEmpty 3 0 [] [] ⟨0, ⟨0, 0⟩, []⟩ [] :=
    .empty ⟨rfl, .terminal rfl⟩ rfl
  have hWhole := ScanBuffer.remains_ofBytes []
  have hCut := ScanBuffer.remains_ofSource (Source.delivers_queue []) []
  refine ⟨_, Engine.ofAutomaton_of_lt hEntry .table, ?_, ?_⟩
  · exact (Engine.lexAll_upToEmpty hEntry .table hWhole hUpTo).1 rfl (.inl rfl)
  · refine (Engine.lexAll_upToEmpty hEntry .table hCut hUpTo).2 ?_
    rintro ⟨-, hSees⟩
    cases (Automaton.seesEnd_iff_of_terminal rfl).mp hSees

end StreamLexer
