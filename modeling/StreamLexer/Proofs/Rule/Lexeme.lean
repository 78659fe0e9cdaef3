import StreamLexer.Proofs.Lexing.EndOfStream
import StreamLexer.Proofs.Rule.Chain

/-!
# One lexeme of an invocation

An invocation scans one lexeme, with a refill, and perhaps a suspension, wherever the window runs
dry. Resumed at once, it comes to the match that what remains of the stream fixes, from any entry
that its automaton has, and its rule makes its verdict there. What the verdict knows of the end of
the stream is what the search for the match has shown.

## Main definitions

* `RuleSet.goOn`: what comes of an invocation after a step
* `RuleSet.ComesTo`: some calls of an invocation, and the step after them
* `RuleSet.Awaits`: the match to come of an invocation, and whether it will be known for the last

## Main results

* `RuleSet.exists_awaits`: a rule that is invoked has a match to come
* `RuleSet.Awaits.step_cases`: a step makes the verdict on it, or is followed by a refill
* `RuleSet.Awaits.comesTo`: an invocation comes to the verdict
* `Rule.exists_action`: the action of a match is defined
-/

namespace StreamLexer

namespace Automaton

variable {a : Automaton} {entry s : StateId} {b : ScanBuffer} {w : Window} {left : List UInt8}
  {backend : Backend}

theorem Foresees.lt_size {found : Match} (h : a.Foresees s b found left) : s.toNat < a.size := by
  cases h with
  | ofWalk _ hWalks => exact hWalks.lt_size

/-- A scan that asks for a refill looks for a symbol. -/
theorem seesEnd_of_refill (hs : s.toNat < a.size) {point : ResumePoint}
    (hRun : (Engine.inForm backend a entry).run b.window (backend.point s) =
      (.ok (.refill point), w)) : a.SeesEnd s b := by
  obtain ⟨row | action, hState⟩ := exists_state_iff.mpr hs
  · exact .inr ⟨row, hState⟩
  · have hMatched := Engine.run_inForm (w := b.window) (.terminal hState) backend entry
    rw [hRun] at hMatched
    cases hMatched

/-- A scan that reports an action leaves an exhausted window exactly if nothing is left and the scan
showed it. -/
theorem isExhausted_of_matched {action : ActionId}
    (hRun : (Engine.inForm backend a entry).run b.window (backend.point s) =
      (.ok (.matched action), w))
    (hLeft : ScanBuffer.Remains { b with window := w } left)
    (hDry : ∀ row, a.state? s = some (.dispatch row) → w.isDry = false) :
    ScanBuffer.isExhausted { b with window := w } = true ↔ left = [] ∧ a.SeesEnd s b := by
  have hSame : w.atEnd = b.window.atEnd := by
    rw [← Engine.atEnd_run (Engine.inForm backend a entry) b.window (backend.point s), hRun]
  rw [hLeft.isExhausted_iff]
  refine and_congr_right fun hNil => ⟨fun hEnd => .inl (hSame ▸ hEnd), ?_⟩
  rintro (hEnd | ⟨row, hRow⟩)
  · exact hSame.trans hEnd
  · have hKnown := hLeft.isExhausted_eq (hDry row hRow)
    rw [hNil] at hKnown
    exact (Bool.and_eq_true_iff.mp hKnown).2

/-- A walk that reports an action has come to its terminal. -/
theorem Walks.exists_action {atEnd : Bool} {lexeme pending lexeme' left : List UInt8}
    {action : ActionId} (h : a.Walks atEnd lexeme s pending ⟨.matched action, lexeme', left⟩) :
    ∃ target, a.action? target = some action := by
  generalize hr : (⟨.matched action, lexeme', left⟩ : Walk (Outcome StateId)) = r at h
  induction h with
  | terminal hState =>
    cases hr
    exact ⟨_, by rw [Tables.action?, hState]; rfl⟩
  | dry => cases hr
  | finish _ _ _ hAction =>
    cases hr
    exact ⟨_, hAction⟩
  | report _ _ hAction =>
    cases hr
    exact ⟨_, hAction⟩
  | read _ _ _ _ ih => exact ih hr

instance : Std.LawfulOrderSup ActionId where
  max_le_iff x y z := by
    have hMax : max x y = if x ≤ y then y else x := rfl
    rw [hMax]
    simp only [UInt32.le_iff_toNat_le]
    split_ifs <;> omega

/-- No action that is reported is higher than the highest one. -/
theorem exists_maxAction {action : ActionId} (h : a.action? s = some action) :
    ∃ highest, a.maxAction? = some highest ∧ action ≤ highest := by
  have hMem : action ∈ a.states.toList.filterMap State.action? := by
    refine List.mem_filterMap.mpr ⟨.terminal action, ?_, rfl⟩
    exact Array.mem_toList_iff.mpr (Array.mem_of_getElem? (state?_of_action? h))
  obtain ⟨highest, hMax⟩ := Option.isSome_iff_exists.mp (List.isSome_max?_of_mem hMem)
  exact ⟨highest, hMax, (List.max?_le_iff hMax).mp (UInt32.le_refl highest) action hMem⟩

/-- The highest action that is reported is reported by some state. -/
theorem exists_action_of_maxAction {highest : ActionId}
    (h : a.maxAction? = some highest) : ∃ s, a.action? s = some highest := by
  obtain ⟨state, hState, hAction⟩ := List.mem_filterMap.mp (List.max?_mem h)
  obtain ⟨i, hi, rfl⟩ := Array.mem_iff_getElem.mp (Array.mem_toList_iff.mp hState)
  have hFits : i < UInt32.size := Nat.lt_trans hi a.wellFormed.size_lt
  refine ⟨UInt32.ofNat i, ?_⟩
  rw [Tables.action?, Tables.state?, UInt32.toNat_ofNat_of_lt' hFits,
    Array.getElem?_eq_getElem hi]
  exact hAction

end Automaton

variable {n : Nat} {P R ω : Type}

namespace Rule

variable {name : String} {engine : Engine} {actions : Array (Action n P R)} {hooked : Bool}
  {r : Rule n P R}

theorem ofParts_eq_ok_iff :
    ofParts name engine actions hooked = .ok r ↔
      r = ⟨name, engine, actions, hooked⟩ ∧
        ∀ highest, engine.maxAction? = some highest → highest.toNat < actions.size := by
  unfold ofParts
  cases engine.maxAction? with
  | none => simp [eq_comm]
  | some highest =>
    dsimp only
    by_cases hSize : actions.size ≤ highest.toNat
    · simp [hSize]
    · simp [hSize, Nat.not_le.mp hSize, eq_comm]

/-- An action that the automaton reports anywhere is defined. -/
theorem exists_action_of_reported {backend : Backend} {a : Automaton} {entry : StateId}
    (hRule : ofParts name (Engine.inForm backend a entry) actions hooked = .ok r)
    {action : ActionId} (h : ∃ target, a.action? target = some action) :
    ∃ act, r.actions[action.toNat]? = some act := by
  obtain ⟨rfl, hDefined⟩ := ofParts_eq_ok_iff.mp hRule
  obtain ⟨target, hAction⟩ := h
  obtain ⟨highest, hMax, hLe⟩ := Automaton.exists_maxAction hAction
  have hKnown : (Engine.inForm backend a entry).maxAction? = some highest := by
    cases backend <;> exact hMax
  have hLt : action.toNat < actions.size :=
    Nat.lt_of_le_of_lt (UInt32.le_iff_toNat_le.mp hLe) (hDefined highest hKnown)
  exact ⟨actions[action.toNat], Array.getElem?_eq_getElem hLt⟩

/-- **The action of a match is defined**, whatever form the rule's engine has. -/
theorem exists_action {backend : Backend} {a : Automaton} {entry s : StateId}
    (hRule : ofParts name (Engine.inForm backend a entry) actions hooked = .ok r) {offset : Nat}
    {rest left : List UInt8} {m : Match} (h : a.Finds s offset rest m left) :
    ∃ act, r.actions[m.action.toNat]? = some act :=
  exists_action_of_reported hRule h.walks.exists_action

end Rule

namespace RuleSet

/-- What comes of an invocation after a step. -/
def goOn (rules : RuleSet n P R) (hook : Hook n P R ω) (fuel : Nat) :
    Step n P R → Course n P R ω → Reply n P R ω
  | .next k, c => rules.follow hook fuel k c
  | .finished result b, c => some (.ok result, c.record [.finished result b])
  | .failed error b, c => some (.error error, c.record [.failed error b])
  | .suspended k, c =>
    (hook k c.host).1.carryOut (Continuation.resumeBy (rules.follow hook fuel))
      (c.suspend k (hook k c.host).2)

/-- An invocation whose suspended rules are resumed at once makes the calls, and goes on with the
step, after some scans. -/
def ComesTo (rules : RuleSet n P R) (k : Continuation n P) (calls : List (Fin n × Match × P))
    (next : Step n P R) : Prop :=
  ∃ scans, ∀ (ω : Type) (fuel : Nat) (c : Course n P R ω), ∃ c', c'.calls = c.calls ++ calls ∧
    rules.follow Hook.passThrough (fuel + scans + 1) k c =
      rules.goOn Hook.passThrough fuel next c'

/-- The next match of an invocation is `found`, which leaves `left`; whether the buffer will be
exhausted behind it. -/
inductive Awaits (rules : RuleSet n P R) (k : Continuation n P) (found : Match)
    (left : List UInt8) (exhausted : Bool) : Prop
  | atState {backend : Backend} {a : Automaton} {entry s : StateId} :
      (rules.rule k.rule).engine = Engine.inForm backend a entry → k.point = backend.point s →
      a.Foresees s k.buffer found left →
      (exhausted = true ↔ left = [] ∧ a.SeesEnd s k.buffer) → Awaits rules k found left exhausted

variable {rules : RuleSet n P R} {k k' : Continuation n P} {found : Match} {left : List UInt8}
  {exhausted : Bool}

theorem follow_eq_goOn (hook : Hook n P R ω) (fuel : Nat) (k : Continuation n P)
    (c : Course n P R ω) :
    rules.follow hook (fuel + 1) k c =
      rules.goOn hook fuel (rules.step k).2 (c.record (rules.step k).1) := by
  rw [follow]
  rcases rules.step k with ⟨events, k' | ⟨result, b⟩ | ⟨error, b⟩ | k'⟩ <;> rfl

theorem comesTo_of_step {events : List (Event n P R)} {next : Step n P R}
    (h : rules.step k = (events, next)) :
    rules.ComesTo k (events.filterMap Event.call?) next := by
  refine ⟨0, fun ω fuel c => ⟨c.record events, c.calls_record events, ?_⟩⟩
  rw [follow_eq_goOn, h]

/-- A refill in place and a suspension that is resumed at once lead to the same. -/
theorem comesTo_of_refill {r : Option Refill} {b : ScanBuffer} {calls : List (Fin n × Match × P)}
    {next : Step n P R} (hRefill : k'.buffer.refill = (.ok r, b))
    (hStep : rules.step k =
      if (rules.rule k.rule).hooked then ([], .suspended k') else refillInPlace k')
    (h : rules.ComesTo { k' with buffer := b } calls next) : rules.ComesTo k calls next := by
  obtain ⟨scans, hScans⟩ := h
  refine ⟨scans + 1, fun ω fuel c => ?_⟩
  by_cases hHooked : (rules.rule k.rule).hooked = true
  · rw [if_pos hHooked] at hStep
    rw [follow_of_suspended hStep, Hook.passThrough, Plan.carryOut_passThrough,
      Continuation.resumeBy_of_refill hRefill]
    obtain ⟨c', hCalls, hFollow⟩ := hScans ω fuel ((c.suspend k' c.host).record
      (refillEvents r ++ [.resumed { k' with buffer := b }]))
    rw [Course.calls_record, call?_resumed, List.append_nil, Course.calls_suspend] at hCalls
    exact ⟨c', hCalls, hFollow⟩
  · rw [if_neg hHooked, refillInPlace, hRefill] at hStep
    rw [follow_of_next hStep]
    obtain ⟨c', hCalls, hFollow⟩ := hScans ω fuel (c.record (refillEvents r))
    rw [Course.calls_record, call?_refillEvents, List.append_nil] at hCalls
    exact ⟨c', hCalls, hFollow⟩

/-- **A rule that is invoked has a match to come**: the one at the place of the buffer. -/
theorem exists_awaits {i : Fin n} {backend : Backend} {a : Automaton} {entry : StateId}
    (hEngine : Engine.ofAutomaton backend a entry = .ok (rules.rule i).engine) {b : ScanBuffer}
    {rest : List UInt8} (hRest : b.Remains rest) (params : P) :
    ∃ found left exhausted, a.Finds entry b.window.position rest found left ∧
      (exhausted = true ↔ left = [] ∧ a.SeesEnd entry b) ∧
      rules.Awaits (rules.start i b params) found left exhausted := by
  obtain ⟨hEntry, hForm⟩ := Engine.ofAutomaton_eq_ok_iff.mp hEngine
  obtain ⟨found, left, hFound⟩ := Automaton.exists_foresees hEntry hRest.beginLexeme
  have hPoint : (rules.start i b params).point = backend.point entry := by
    rw [start, ← hForm, Engine.entry_inForm]
  -- no refill on the way changes what is known of the end
  by_cases hLast : left = [] ∧ a.SeesEnd entry b
  · have hIff : true = true ↔ left = [] ∧ a.SeesEnd entry b := iff_of_true rfl hLast
    exact ⟨found, left, true, hFound.finds hRest, hIff, .atState hForm.symm hPoint hFound hIff⟩
  · have hIff : false = true ↔ left = [] ∧ a.SeesEnd entry b := iff_of_false Bool.false_ne_true hLast
    exact ⟨found, left, false, hFound.finds hRest, hIff, .atState hForm.symm hPoint hFound hIff⟩

namespace Awaits

/-- **A step makes the verdict on the match to come**, or needs more input; after the refill, the
match to come is the same. -/
theorem step_cases (h : rules.Awaits k found left exhausted) :
    (∃ events b, rules.step k =
        (events, rules.enact b (rules.verdict k.rule found exhausted k.params).2) ∧
      events.filterMap Event.call? = (rules.verdict k.rule found exhausted k.params).1 ∧
      b.Remains left ∧ b.window.position = found.span.stop) ∨
      ∃ k' r b, k'.rule = k.rule ∧ k'.params = k.params ∧ k'.buffer.refill = (.ok r, b) ∧
        b.toCome < k.buffer.toCome ∧
        rules.Awaits { k' with buffer := b } found left exhausted ∧
        rules.step k =
          if (rules.rule k.rule).hooked then ([], .suspended k') else refillInPlace k' := by
  obtain @⟨backend, a, entry, s, hEngine, hPoint, hFound, hExhausted⟩ := h
  rcases hFound.scan backend entry with ⟨action, w, hRun, rfl, hLeft, hDry⟩ |
    ⟨q, row, lexeme, hEnd, hRow, hRun, hFound'⟩
  · have hIff := (Automaton.isExhausted_of_matched hRun hLeft hDry).trans hExhausted.symm
    rw [← hEngine, ← hPoint] at hRun
    obtain ⟨events, b, hDispatch, hCalls, hBuffer⟩ :=
      rules.dispatch_verdict { k with buffer := { k.buffer with window := w } } action
    rw [Bool.eq_iff_iff.mpr hIff] at hDispatch hCalls
    refine .inl ⟨events, b, (rules.step_of_matched hRun).trans hDispatch, hCalls, ?_⟩
    rcases hBuffer with rfl | rfl
    · exact ⟨hLeft, rfl⟩
    · exact ⟨hLeft.beginLexeme, w.position_beginLexeme⟩
  · have hSees : a.SeesEnd s k.buffer := Automaton.seesEnd_of_refill hFound.lt_size hRun
    rw [← hEngine, ← hPoint] at hRun
    let k' := k.stopAt (backend.point q) (k.buffer.window.reached lexeme [])
    obtain ⟨r, b, hRefill, hFound''⟩ := hFound'.refill
    have hLess := ScanBuffer.toCome_refill_reached_lt hEnd hRefill
    refine .inr ⟨k', r, b, rfl, rfl, hRefill, hLess, ?_, rules.step_of_refill hRun⟩
    refine .atState hEngine rfl hFound'' (hExhausted.trans (and_congr_right fun _ => ?_))
    exact iff_of_true hSees (.inr ⟨row, hRow⟩)

/-- **An invocation comes to the verdict** on the match to come, if what is suspended is resumed at
once. -/
theorem comesTo (h : rules.Awaits k found left exhausted) :
    ∃ b, b.Remains left ∧ b.window.position = found.span.stop ∧
      rules.ComesTo k (rules.verdict k.rule found exhausted k.params).1
        (rules.enact b (rules.verdict k.rule found exhausted k.params).2) := by
  induction hn : k.buffer.toCome using Nat.strong_induction_on generalizing k with
  | _ m ih =>
    subst hn
    rcases h.step_cases with ⟨events, b, hStep, hCalls, hLeft, hStop⟩ |
      ⟨k', r, b, hRule, hParams, hRefill, hLess, hNext, hStep⟩
    · rw [← hCalls]
      exact ⟨b, hLeft, hStop, comesTo_of_step hStep⟩
    · obtain ⟨b', hLeft, hStop, hComes⟩ := ih b.toCome hLess hNext rfl
      rw [← hRule, ← hParams]
      exact ⟨b', hLeft, hStop, comesTo_of_refill hRefill hStep hComes⟩

end Awaits

end RuleSet

end StreamLexer
