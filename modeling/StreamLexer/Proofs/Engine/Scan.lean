import StreamLexer.Engine
import StreamLexer.Proofs.Input.Refill
import StreamLexer.Proofs.Program.Compilation

/-!
# Engines of automata

An engine runs an automaton in one of two forms. Both scan as the automaton walks, up to the name
of the point where a scan stops, so that the search for the next match takes the same course in
both: the same scans, the same refills, and the same match or error.

## Main definitions

* `Backend.point`: the resume point of a state
* `Engine.inForm`: an automaton in one of the two forms

## Main results

* `Engine.ofAutomaton_eq_ok_iff`: an engine is an automaton in one form, with an existing entry
* `Engine.run_inForm`: both forms scan as the automaton walks
* `Engine.matchFrom_of_matched`, `Engine.matchFrom_of_refill`: what a scan leads to
* `Engine.search_induction`: a search, scan by scan
* `Engine.nextMatch_inForm`: both forms find the same next match, and leave the same buffer
* `Engine.matchFrom_induction`: what windows and refills keep, a search keeps
-/

namespace StreamLexer

/-- The resume point of a state. -/
def Backend.point : Backend → StateId → ResumePoint
  | table, s => .state s
  | direct, s => .unit s

namespace Engine

/-- A match spans no byte exactly if it has none. -/
theorem isEmpty_span_matchOf (action : ActionId) (w : Window) :
    (matchOf action w).span.isEmpty = (matchOf action w).text.isEmpty := by
  rw [Bool.eq_iff_iff]
  simp [matchOf, Window.span, Span.isEmpty, Window.position, Window.text]

/-- An automaton in one of the two forms. -/
def inForm (backend : Backend) (a : Automaton) (entry : StateId) : Engine :=
  match backend with
  | .table => table a entry
  | .direct => direct (Program.ofAutomaton a) entry

theorem entry_inForm (backend : Backend) (a : Automaton) (entry : StateId) :
    (inForm backend a entry).entry = backend.point entry := by
  cases backend <;> rfl

theorem ofAutomaton_of_lt {a : Automaton} {entry : StateId} (h : entry.toNat < a.size)
    (backend : Backend) : ofAutomaton backend a entry = .ok (inForm backend a entry) := by
  simp only [ofAutomaton, Automaton.checkEntry, h, if_true]
  cases backend <;> rfl

/-- An engine is an automaton in one form, with an existing entry. -/
theorem ofAutomaton_eq_ok_iff {backend : Backend} {a : Automaton} {entry : StateId}
    {e : Engine} :
    ofAutomaton backend a entry = .ok e ↔
      entry.toNat < a.size ∧ inForm backend a entry = e := by
  constructor
  · intro h
    by_cases hEntry : entry.toNat < a.size
    · rw [ofAutomaton_of_lt hEntry] at h
      exact ⟨hEntry, Except.ok.inj h⟩
    · simp [ofAutomaton, Automaton.checkEntry, hEntry] at h
  · rintro ⟨hEntry, rfl⟩
    exact ofAutomaton_of_lt hEntry backend

/-- **Both forms scan as the automaton walks.** -/
theorem run_inForm {a : Automaton} {w : Window} {s : StateId} {r : Walk (Outcome StateId)}
    (h : a.Walks w.atEnd w.lexeme s w.pending r) (backend : Backend) (entry : StateId) :
    (inForm backend a entry).run w (backend.point s) =
      (.ok (r.result.map backend.point), w.reached r.lexeme r.pending) := by
  cases backend with
  | table => simp only [inForm, Backend.point, run, Automaton.run?_of_walks h]; rfl
  | direct => simp only [inForm, Backend.point, run, Program.run_ofAutomaton h]; rfl

/-- A scan from an existing state reports an action, or asks for a refill at a dispatch state. -/
theorem scan_cases {a : Automaton} {s : StateId} (hs : s.toNat < a.size) (backend : Backend)
    (entry : StateId) (w : Window) :
    (∃ action lexeme pending,
      a.Walks w.atEnd w.lexeme s w.pending ⟨.matched action, lexeme, pending⟩ ∧
        (inForm backend a entry).run w (backend.point s) =
          (.ok (.matched action), w.reached lexeme pending)) ∨
      ∃ q row lexeme, w.atEnd = false ∧ a.state? q = some (.dispatch row) ∧
        a.Walks false w.lexeme s w.pending ⟨.refill q, lexeme, []⟩ ∧
          (inForm backend a entry).run w (backend.point s) =
            (.ok (.refill (backend.point q)), w.reached lexeme []) := by
  obtain ⟨⟨action | q, lexeme, pending⟩, hWalks⟩ :=
    Automaton.exists_walks hs w.atEnd w.lexeme w.pending
  · exact .inl ⟨action, lexeme, pending, hWalks, run_inForm hWalks backend entry⟩
  · obtain ⟨rfl, hEnd, row, hRow⟩ := hWalks.of_refill
    exact .inr ⟨q, row, lexeme, hEnd, hRow, hEnd ▸ hWalks, run_inForm hWalks backend entry⟩

section MatchFrom

variable {e : Engine} {b : ScanBuffer} {point : ResumePoint} {w : Window}

theorem matchFrom_of_matched {action : ActionId}
    (h : e.run b.window point = (.ok (.matched action), w)) :
    e.matchFrom point b = (.ok (matchOf action w), { b with window := w.beginLexeme }) := by
  rw [matchFrom]
  simp only [h]

theorem matchFrom_of_error {error : LexError} (h : e.run b.window point = (.error error, w)) :
    e.matchFrom point b = (.error error, { b with window := w }) := by
  rw [matchFrom]
  simp only [h]

theorem matchFrom_of_refill_error {point' : ResumePoint} {b' : ScanBuffer} {error : LexError}
    (hRun : e.run b.window point = (.ok (.refill point'), w)) (hEnd : b.window.atEnd = false)
    (hRefill : ScanBuffer.refill { b with window := w } = (.error error, b')) :
    e.matchFrom point b = (.error error, b') := by
  obtain ⟨hResult, hWindow⟩ := Prod.ext_iff.mp hRun
  dsimp only at hResult hWindow
  rw [matchFrom]
  simp only [hResult, hEnd, Bool.false_eq_true, dite_false]
  split
  · next error' hError =>
    rw [hWindow, hRefill] at hError ⊢
    cases hError
    rfl
  · next hOk =>
    rw [hWindow, hRefill] at hOk
    cases hOk

theorem matchFrom_of_refill_ok {point' : ResumePoint} {b' : ScanBuffer} {refill : Option Refill}
    (hRun : e.run b.window point = (.ok (.refill point'), w)) (hEnd : b.window.atEnd = false)
    (hRefill : ScanBuffer.refill { b with window := w } = (.ok refill, b')) :
    e.matchFrom point b = e.matchFrom point' b' := by
  obtain ⟨hResult, hWindow⟩ := Prod.ext_iff.mp hRun
  dsimp only at hResult hWindow
  rw [matchFrom]
  simp only [hResult, hEnd, Bool.false_eq_true, dite_false]
  split
  · next hError =>
    rw [hWindow, hRefill] at hError
    cases hError
  · rw [hWindow, hRefill]

end MatchFrom

/-- **A search, scan by scan**: what holds where a scan reports an action, and where a refill fails,
and holds before a refill if it does after it, holds wherever a search goes on from. -/
theorem search_induction {motive : StateId → ScanBuffer → Prop} {a : Automaton}
    (backend : Backend) (entry : StateId)
    (matched : ∀ {s b action lexeme pending},
      a.Walks b.window.atEnd b.window.lexeme s b.window.pending
        ⟨.matched action, lexeme, pending⟩ →
      (inForm backend a entry).run b.window (backend.point s) =
        (.ok (.matched action), b.window.reached lexeme pending) → motive s b)
    (failed : ∀ {s b q lexeme error b'}, b.window.atEnd = false →
      a.Walks false b.window.lexeme s b.window.pending ⟨.refill q, lexeme, []⟩ →
      (inForm backend a entry).run b.window (backend.point s) =
        (.ok (.refill (backend.point q)), b.window.reached lexeme []) →
      ScanBuffer.refill { b with window := b.window.reached lexeme [] } = (.error error, b') →
      motive s b)
    (refilled : ∀ {s b q lexeme r b'}, b.window.atEnd = false →
      a.Walks false b.window.lexeme s b.window.pending ⟨.refill q, lexeme, []⟩ →
      (inForm backend a entry).run b.window (backend.point s) =
        (.ok (.refill (backend.point q)), b.window.reached lexeme []) →
      ScanBuffer.refill { b with window := b.window.reached lexeme [] } = (.ok r, b') →
      motive q b' → motive s b)
    {s : StateId} (hs : s.toNat < a.size) (b : ScanBuffer) : motive s b := by
  -- each refill brings the end of the stream nearer
  induction hn : b.toCome using Nat.strongRecOn generalizing s b with
  | ind n ih =>
    subst hn
    rcases scan_cases hs backend entry b.window with
      ⟨action, lexeme, pending, hWalks, hRun⟩ | ⟨q, row, lexeme, hEnd, hRow, hWalks, hRun⟩
    · exact matched hWalks hRun
    · rcases hTaken : ScanBuffer.refill { b with window := b.window.reached lexeme [] } with
        ⟨error | r, b'⟩
      · exact failed hEnd hWalks hRun hTaken
      · exact refilled hEnd hWalks hRun hTaken
          (ih _ (ScanBuffer.toCome_refill_reached_lt hEnd hTaken)
            (Automaton.lt_size_of_state? hRow) b' rfl)

/-- Both forms go on alike from the same state. -/
theorem matchFrom_inForm {a : Automaton} {s : StateId} (hs : s.toNat < a.size)
    (backend backend' : Backend) (entry entry' : StateId) (b : ScanBuffer) :
    (inForm backend a entry).matchFrom (backend.point s) b =
      (inForm backend' a entry').matchFrom (backend'.point s) b := by
  refine search_induction (motive := fun s b =>
    (inForm backend a entry).matchFrom (backend.point s) b =
      (inForm backend' a entry').matchFrom (backend'.point s) b)
    backend entry ?matched ?failed ?refilled hs b
  case matched =>
    intro s b action lexeme pending hWalks hRun
    rw [matchFrom_of_matched hRun, matchFrom_of_matched (run_inForm hWalks backend' entry')]
  case failed =>
    intro s b q lexeme error b' hEnd hWalks hRun hRefill
    have hRun' := run_inForm (hEnd.symm ▸ hWalks) backend' entry'
    rw [matchFrom_of_refill_error hRun hEnd hRefill, matchFrom_of_refill_error hRun' hEnd hRefill]
  case refilled =>
    intro s b q lexeme r b' hEnd hWalks hRun hRefill ih
    have hRun' := run_inForm (hEnd.symm ▸ hWalks) backend' entry'
    rw [matchFrom_of_refill_ok hRun hEnd hRefill, matchFrom_of_refill_ok hRun' hEnd hRefill]
    exact ih

/-- **Both forms find the same next match, and leave the same buffer.** -/
theorem nextMatch_inForm {a : Automaton} {entry : StateId} (hEntry : entry.toNat < a.size)
    (backend backend' : Backend) (b : ScanBuffer) :
    (inForm backend a entry).nextMatch b = (inForm backend' a entry).nextMatch b := by
  rw [nextMatch, nextMatch, entry_inForm, entry_inForm]
  exact matchFrom_inForm hEntry backend backend' entry entry b.beginLexeme

/-- **What windows and refills keep, a search keeps**: a search that finds a match does nothing else
to its buffer than to scan and refill. -/
theorem matchFrom_induction {p : ScanBuffer → Prop} {a : Automaton} {s : StateId}
    (hWindow : ∀ b w, p b → w.atEnd = b.window.atEnd → p { b with window := w })
    (hRefill : ∀ b r b', p b → b.refill = (.ok r, b') → p b') (hs : s.toNat < a.size)
    {backend : Backend} {entry : StateId} {b b' : ScanBuffer} {m : Match} (hp : p b)
    (h : (inForm backend a entry).matchFrom (backend.point s) b = (.ok m, b')) : p b' := by
  refine search_induction (motive := fun s b => p b →
    (inForm backend a entry).matchFrom (backend.point s) b = (.ok m, b') → p b')
    backend entry ?matched ?failed ?refilled hs b hp h
  case matched =>
    intro s b action lexeme pending _ hRun hp h
    rw [matchFrom_of_matched hRun] at h
    cases h
    exact hWindow b _ hp rfl
  case failed =>
    intro s b q lexeme error b'' hEnd _ hRun hTaken _ h
    rw [matchFrom_of_refill_error hRun hEnd hTaken] at h
    cases h
  case refilled =>
    intro s b q lexeme r b'' hEnd _ hRun hTaken ih hp h
    rw [matchFrom_of_refill_ok hRun hEnd hTaken] at h
    have hScanned : p { b with window := b.window.reached lexeme [] } := hWindow b _ hp rfl
    exact ih (hRefill _ r b'' hScanned hTaken) h

end Engine

end StreamLexer
