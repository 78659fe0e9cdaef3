import StreamLexer.Proofs.Engine.Scan

/-!
# Scans and deliveries

A scan that runs dry has read all bytes at hand, and so a delivery can wait until then: to let go of
the bytes before the lexeme, take the delivery in and go on where the scan stopped comes to the same
as to take it in before the scan starts. A scan that reports an action before the end of the stream
is in sight has no use for a delivery. Taken in before it starts, the delivery changes nothing but
what waits behind the match. A delivery may be empty, and it may end the stream with its bytes or
without any.

## Main results

* `Engine.run_append_of_matched`: a delivery does not change an action that is reported without it
* `Engine.run_append_of_refill`: a delivery can wait until a scan runs dry
* `run_append`: both, from every state and on every window before the end of the stream
-/

namespace StreamLexer

namespace Engine

variable {a : Automaton} {s q : StateId} {w : Window} {lexeme pending : List UInt8}
  {action : ActionId}

/-- **A delivery does not change an action that is reported without it.** -/
theorem run_append_of_matched
    (h : a.Walks false w.lexeme s w.pending ⟨.matched action, lexeme, pending⟩) (backend : Backend)
    (entry : StateId) (bytes : List UInt8) (final : Bool) :
    (inForm backend a entry).run (w.append bytes final) (backend.point s) =
      (.ok (.matched action), (w.reached lexeme pending).append bytes final) := by
  have hMore := h.append_of_matched (w.append bytes final).atEnd bytes
  exact run_inForm (w := w.append bytes final) hMore backend entry

/-- **A delivery can wait until a scan runs dry.** The scan that goes on leaves the window that the
other leaves, without the bytes before the lexeme. -/
theorem run_append_of_refill (h : a.Walks false w.lexeme s w.pending ⟨.refill q, lexeme, []⟩)
    (hq : q.toNat < a.size) (backend : Backend) (entry : StateId) (bytes : List UInt8)
    (final : Bool) :
    ∃ outcome v,
      (inForm backend a entry).run ((w.reached lexeme []).dropSpent.append bytes final)
        (backend.point q) = (.ok outcome, v.dropSpent) ∧
      (inForm backend a entry).run (w.append bytes final) (backend.point s) = (.ok outcome, v) := by
  obtain ⟨r, hRest⟩ := Automaton.exists_walks hq (w.append bytes final).atEnd lexeme bytes
  have hWhole : a.Walks (w.append bytes final).atEnd w.lexeme s (w.pending ++ bytes) r :=
    h.append_of_refill hRest
  refine ⟨r.result.map backend.point, (w.append bytes final).reached r.lexeme r.pending, ?_, ?_⟩
  · exact run_inForm (w := (w.reached lexeme []).dropSpent.append bytes final) hRest backend entry
  · exact run_inForm (w := w.append bytes final) hWhole backend entry

end Engine

/-- **Scans and deliveries compose.** Let either form of an automaton scan from any of its states, on
any window before the end of the stream, and let any bytes be delivered, whether they end the stream
or not. The scan stops in one of two ways. It runs dry at a dispatch state; then, to let go of the
bytes before the lexeme, take the delivery in and go on there has the outcome of a scan with the
delivery taken in before, and both leave the same span, lexeme and pending bytes, at the end of the
stream or not. Or it reports an action; then the scan with the delivery taken in before reports it as
well, and leaves the same window with the delivery behind it. -/
theorem run_append {a : Automaton} {backend : Backend} {entry : StateId} {e : Engine}
    (hEngine : Engine.ofAutomaton backend a entry = .ok e) {s : StateId} (hs : s.toNat < a.size)
    {w : Window} (hEnd : w.atEnd = false) (bytes : List UInt8) (final : Bool) :
    (∃ q row w' outcome u v, e.run w (backend.point s) = (.ok (.refill (backend.point q)), w') ∧
        a.state? q = some (.dispatch row) ∧
        e.run (w'.dropSpent.append bytes final) (backend.point q) = (.ok outcome, u) ∧
        e.run (w.append bytes final) (backend.point s) = (.ok outcome, v) ∧
        u.span = v.span ∧ u.text = v.text ∧ u.pending = v.pending ∧ u.atEnd = v.atEnd) ∨
      ∃ action w', e.run w (backend.point s) = (.ok (.matched action), w') ∧
        e.run (w.append bytes final) (backend.point s) =
          (.ok (.matched action), { w' with pending := w'.pending ++ bytes, atEnd := final }) := by
  obtain ⟨-, rfl⟩ := Engine.ofAutomaton_eq_ok_iff.mp hEngine
  rcases Engine.scan_cases hs backend entry w with
    ⟨action, lexeme, pending, hScan, hRun⟩ | ⟨q, row, lexeme, -, hRow, hScan, hRun⟩
  · rw [hEnd] at hScan
    refine .inr ⟨action, _, hRun, ?_⟩
    have hMore := Engine.run_append_of_matched hScan backend entry bytes final
    simpa only [Window.append, Window.reached, hEnd, Bool.false_or] using hMore
  · obtain ⟨outcome, v, hResumed, hWhole⟩ := Engine.run_append_of_refill hScan
      (Automaton.lt_size_of_state? hRow) backend entry bytes final
    refine .inl ⟨q, row, _, outcome, v.dropSpent, v, hRun, hRow, hResumed, hWhole, ?_⟩
    exact ⟨v.span_dropSpent, v.text_dropSpent, rfl, rfl⟩

/-- A window in the middle of a word, behind the blank before it. -/
def Window.midWord : Window := ⟨1, [32], [97], [98], false, by decide⟩

/-- The end of the word and the end of the stream are delivered at once. -/
theorem run_append_words :
    ∃ e, Engine.ofAutomaton .table Automaton.words 0 = .ok e ∧
      (2 : StateId).toNat < Automaton.words.size ∧ Window.midWord.atEnd = false ∧
      ∃ w' outcome u v, e.run .midWord (.state 2) = (.ok (.refill (.state 2)), w') ∧
        e.run (w'.dropSpent.append [99, 32] true) (.state 2) = (.ok outcome, u) ∧
        e.run (Window.midWord.append [99, 32] true) (.state 2) = (.ok outcome, v) ∧
        u.span = v.span ∧ u.text = v.text ∧ u.pending = v.pending ∧ u.atEnd = v.atEnd ∧
        outcome = .matched 2 ∧ u.text = [97, 98, 99] := by
  have hEngine : Engine.ofAutomaton .table Automaton.words 0 = .ok (.table Automaton.words 0) := rfl
  refine ⟨_, hEngine, by decide, rfl, ?_⟩
  rcases run_append hEngine (s := 2) (by decide) (w := .midWord) rfl [99, 32] true with
    ⟨q, row, w', outcome, u, v, hRun, -, hResumed, hWhole, hSpan, hText, hPending, hAtEnd⟩ |
    ⟨action, w', hRun, -⟩
  · obtain ⟨hPoint, rfl⟩ := Prod.mk.inj hRun
    obtain ⟨hOutcome, rfl⟩ := Prod.mk.inj hWhole
    cases hPoint
    cases hOutcome
    exact ⟨_, _, u, _, hRun, hResumed, hWhole, hSpan, hText, hPending, hAtEnd, rfl, hText⟩
  · cases (Prod.mk.inj hRun).1

end StreamLexer
