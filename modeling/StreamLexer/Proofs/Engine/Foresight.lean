import StreamLexer.Proofs.Engine.Scan
import StreamLexer.Proofs.Input.Delivery

/-!
# The match to come

What remains of a stream fixes the match to come before it is found: it is the match of the walk
over all that remains, up to the end. A scan reports this match, or runs dry without changing which
match is to come; a refill does not change it either, wherever the stream is cut. So the search
finds it, and leaves of the stream what the walk leaves.

## Main definitions

* `Automaton.Foresees`: the match to come, and what it leaves of the stream

## Main results

* `Automaton.exists_foresees`: there is a match to come
* `Automaton.Foresees.refill`: a refill does not change the match to come
* `Automaton.Foresees.scan`: a scan reports the match to come, or does not change it
* `Automaton.Foresees.nextMatch`: the match to come is found
-/

namespace StreamLexer

namespace Automaton

/-- The walk over all that remains of a buffer's stream reports a match, and leaves `left`. -/
inductive Foresees (a : Automaton) (s : StateId) (b : ScanBuffer) : Match → List UInt8 → Prop
  | ofWalk {rest lexeme left : List UInt8} {action : ActionId} :
      b.Remains rest →
      a.Walks true b.window.lexeme s rest ⟨.matched action, lexeme, left⟩ →
      Foresees a s b (Engine.matchOf action (b.window.reached lexeme left)) left

variable {a : Automaton} {s : StateId} {b : ScanBuffer} {rest : List UInt8}

/-- **There is a match to come**, from every existing state. -/
theorem exists_foresees (hs : s.toNat < a.size) (hRest : b.Remains rest) :
    ∃ found left, a.Foresees s b found left := by
  obtain ⟨⟨action | q, lexeme, left⟩, hWalks⟩ := exists_walks hs true b.window.lexeme rest
  · exact ⟨_, left, .ofWalk hRest hWalks⟩
  · obtain ⟨-, hEnd, -⟩ := hWalks.of_refill
    cases hEnd

namespace Foresees

variable {found : Match} {left : List UInt8}

/-- The match to come is the same on any buffer with the same lexeme and the same bytes to come. -/
theorem congr {b' : ScanBuffer} (h : a.Foresees s b found left) (hRest : b.Remains rest)
    (hRest' : b'.Remains rest) (hStart : b'.window.lexemeStart = b.window.lexemeStart)
    (hLexeme : b'.window.lexeme = b.window.lexeme) : a.Foresees s b' found left := by
  cases h with
  | @ofWalk _ lexeme left action hRemains hWalks =>
    obtain rfl := hRest.unique hRemains
    have hMatch : Engine.matchOf action (b.window.reached lexeme left) =
        Engine.matchOf action (b'.window.reached lexeme left) := by
      simp only [Engine.matchOf, Window.span, Window.position, Window.reached, Window.text, hStart]
    rw [hMatch]
    exact .ofWalk hRest' (hLexeme ▸ hWalks)

/-- The match to come and what it leaves make up the lexeme so far and what remains. -/
theorem text_append_left (h : a.Foresees s b found left) (hRest : b.Remains rest) :
    found.text ++ left = b.window.text ++ rest := by
  cases h with
  | ofWalk hRemains hWalks =>
    obtain rfl := hRest.unique hRemains
    exact hWalks.text_append_pending

/-- At the start of a lexeme, a match to come that is not empty leaves less than what remains. -/
theorem length_left_lt (h : a.Foresees s b.beginLexeme found left) (hRest : b.Remains rest)
    (hSpan : found.span.isEmpty = false) : left.length < rest.length := by
  have hBytes : found.text ++ left = rest := h.text_append_left hRest.beginLexeme
  have hText : found.text ≠ [] := by
    cases h with
    | ofWalk =>
      rw [Engine.isEmpty_span_matchOf] at hSpan
      exact List.isEmpty_eq_false_iff.mp hSpan
  have hPos : 0 < found.text.length := List.length_pos_iff.mpr hText
  rw [← hBytes, List.length_append]
  omega

/-- **A refill does not change the match to come.** -/
theorem refill (h : a.Foresees s b found left) :
    ∃ r b', b.refill = (.ok r, b') ∧ a.Foresees s b' found left := by
  obtain ⟨rest, hRest⟩ : ∃ rest, b.Remains rest := by
    cases h with
    | ofWalk hRest => exact ⟨_, hRest⟩
  obtain ⟨r, b', hRefill, hRest'⟩ := hRest.refill
  exact ⟨r, b', hRefill, h.congr hRest hRest' (ScanBuffer.lexemeStart_of_refill hRefill)
    (ScanBuffer.lexeme_of_refill hRefill)⟩

/-- **A scan reports the match to come, or does not change it.** Reported from a dispatch state, the
symbol behind the match is known. -/
theorem scan (h : a.Foresees s b found left) (backend : Backend) (entry : StateId) :
    (∃ action w,
      (Engine.inForm backend a entry).run b.window (backend.point s) = (.ok (.matched action), w) ∧
        Engine.matchOf action w = found ∧ ScanBuffer.Remains { b with window := w } left ∧
          ∀ row, a.state? s = some (.dispatch row) → w.isDry = false) ∨
      ∃ q row lexeme, b.window.atEnd = false ∧ a.state? q = some (.dispatch row) ∧
        (Engine.inForm backend a entry).run b.window (backend.point s) =
          (.ok (.refill (backend.point q)), b.window.reached lexeme []) ∧
        a.Foresees q { b with window := b.window.reached lexeme [] } found left := by
  cases h with
  | @ofWalk rest lexeme left action hRemains hWalks =>
  have hs : s.toNat < a.size := hWalks.lt_size
  cases hRemains with
  | ended hEnd =>
    -- the scan sees all that remains
    have hScan : a.Walks b.window.atEnd b.window.lexeme s b.window.pending
        ⟨.matched action, lexeme, left⟩ := hEnd ▸ hWalks
    refine .inl ⟨action, _, Engine.run_inForm hScan backend entry, rfl, ?_, fun row hRow => ?_⟩
    · exact .ended (b := { b with window := b.window.reached lexeme left }) hEnd
    · simp [Window.isDry, Window.reached, hEnd]
  | @ahead bytes hEnd hBytes =>
    -- the scan sees the pending bytes only
    rcases Engine.scan_cases hs backend entry b.window with
      ⟨action', lexeme', pending, hScan, hRun⟩ | ⟨q, row, lexeme', -, hRow, hScan, hRun⟩
    · -- more bytes do not change the match
      rw [hEnd] at hScan
      have hEq := hWalks.unique (hScan.append_of_matched true bytes)
      simp only [Walk.mk.injEq, Outcome.matched.injEq] at hEq
      obtain ⟨rfl, rfl, rfl⟩ := hEq
      refine .inl ⟨action, _, hRun, rfl, ?_, fun row hRow => ?_⟩
      · exact .ahead (b := { b with window := b.window.reached lexeme pending }) hEnd hBytes
      · simpa [Window.isDry, Window.reached, hEnd] using hScan.pending_of_dispatch hRow
    · refine .inr ⟨q, row, lexeme', hEnd, hRow, hRun, ?_⟩
      obtain ⟨r, hRest⟩ := exists_walks (lt_size_of_state? hRow) true lexeme' bytes
      obtain rfl := hWalks.unique (hScan.append_of_refill hRest)
      exact .ofWalk (b := { b with window := b.window.reached lexeme' [] })
        (.ahead (b := { b with window := b.window.reached lexeme' [] }) hEnd hBytes) hRest

/-- **The match to come is found**, whatever the deliveries, and leaves of the stream what the walk
leaves. -/
theorem matchFrom (h : a.Foresees s b found left) (backend : Backend) (entry : StateId) :
    ∃ b', (Engine.inForm backend a entry).matchFrom (backend.point s) b = (.ok found, b') ∧
      b'.Remains left ∧ b'.window.position = found.span.stop ∧
        ∀ row, a.state? s = some (.dispatch row) → b'.window.isDry = false := by
  induction hn : b.toCome using Nat.strongRecOn generalizing s b with
  | ind n ih =>
    subst hn
    rcases h.scan backend entry with ⟨action, w, hRun, rfl, hLeft, hDry⟩ |
      ⟨q, row, lexeme, hEnd, hRow, hRun, hNext⟩
    · refine ⟨_, Engine.matchFrom_of_matched hRun, hLeft.beginLexeme, ?_, fun row hRow => ?_⟩
      · exact w.position_beginLexeme
      · exact hDry row hRow
    · obtain ⟨r, b', hRefill, hNext'⟩ := hNext.refill
      obtain ⟨b'', hMatch, hRest, hPosition, hKnown⟩ :=
        ih _ (ScanBuffer.toCome_refill_reached_lt hEnd hRefill) hNext' rfl
      refine ⟨b'', ?_, hRest, hPosition, fun _ _ => hKnown row hRow⟩
      rw [Engine.matchFrom_of_refill_ok hRun hEnd hRefill, hMatch]

/-- **The match to come from the entry is the next match.** -/
theorem nextMatch {entry : StateId} {row : Array StateId}
    (h : a.Foresees entry b.beginLexeme found left)
    (hEntry : a.state? entry = some (.dispatch row)) (backend : Backend) :
    ∃ b', (Engine.inForm backend a entry).nextMatch b = (.ok found, b') ∧
      b'.Remains left ∧ b'.window.position = found.span.stop ∧ b'.window.isDry = false := by
  obtain ⟨b', hMatch, hRest, hPosition, hKnown⟩ := h.matchFrom backend entry
  refine ⟨b', ?_, hRest, hPosition, hKnown row hEntry⟩
  rw [Engine.nextMatch, Engine.entry_inForm, hMatch]

end Foresees

end Automaton

end StreamLexer
