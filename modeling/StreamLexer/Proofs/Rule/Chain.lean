import StreamLexer.Proofs.Engine.Foresight
import StreamLexer.Proofs.Rule.Unhooked

/-!
# Chains of invocations

An invocation comes down to the matches its rules find: each is handed to an action, which ends the
invocation or invokes a rule on the rest of the stream. When every lexeme starts at a dispatch
state, this chain is fixed by what remains of the stream. Which scans, refills and suspensions lead
from one match to the next does not show in it.

## Main definitions

* `RuleSet.verdict`: what a rule does about a match
* `RuleSet.Foresees`: the match to come of an invocation
* `RuleSet.Chain`: the calls and the end of an invocation, by its matches

## Main results

* `RuleSet.Foresees.step_cases`: a step makes the verdict on the match to come, or does not change
  which match that is
* `RuleSet.chain_of_follow`: an invocation that ends without hooks has a chain
-/

namespace StreamLexer

variable {n : Nat} {P R ω : Type}

/-- What comes of an invocation that a decision ends. -/
def Decision.reply? : Decision n P R → Option (Except LexError R)
  | finish result => some (.ok result)
  | fail error => some (.error error)
  | invoke _ _ => none

namespace RuleSet

/-- What a rule does about a match: the call that it makes, if any, and the decision. -/
def verdict (rules : RuleSet n P R) (i : Fin n) (found : Match) (exhausted : Bool) (params : P) :
    List (Fin n × Match × P) × Decision n P R :=
  let rule := rules.rule i
  if found.span.isEmpty && !exhausted then
    ([], .fail (.malformed (.ruleEmptyMatch rule.name found.action found.span.start)))
  else
    match rule.actions[found.action.toNat]? with
    | none => ([], .fail (.malformed (.ruleNoAction rule.name found.action rule.actions.size)))
    | some decide => ([(i, found, params)], decide found params)

/-- Every rule runs an automaton whose lexemes start at a dispatch state. -/
def StartsAtDispatch (rules : RuleSet n P R) : Prop :=
  ∀ i : Fin n, ∃ backend a entry row,
    Engine.ofAutomaton backend a entry = .ok (rules.rule i).engine ∧
      a.state? entry = some (.dispatch row)

/-- An invocation stands at a dispatch state, and its next match is `found`, which leaves `left`. -/
inductive Foresees (rules : RuleSet n P R) (k : Continuation n P) (found : Match)
    (left : List UInt8) : Prop
  | atState {backend : Backend} {a : Automaton} {entry s : StateId} {row : Array StateId} :
      (rules.rule k.rule).engine = Engine.inForm backend a entry → k.point = backend.point s →
      a.state? s = some (.dispatch row) → a.Foresees s k.buffer found left →
      Foresees rules k found left

/-- The calls and the end of an invocation of which a rule has found a match. An action that invokes
a rule goes on with the match that this rule finds on the rest of the stream, in any buffer. -/
inductive Chain (rules : RuleSet n P R) :
    Fin n → P → Match → List UInt8 → List (Fin n × Match × P) → Except LexError R → Prop
  | ended {i params found left calls decision reply} :
      rules.verdict i found left.isEmpty params = (calls, decision) →
      decision.reply? = some reply → Chain rules i params found left calls reply
  | invoked {i params found left calls j params' found' left' calls' reply} :
      rules.verdict i found left.isEmpty params = (calls, .invoke j params') →
      (∀ b : ScanBuffer, b.Remains left → b.window.position = found.span.stop →
        rules.Foresees (rules.start j b params') found' left') →
      Chain rules j params' found' left' calls' reply →
      Chain rules i params found left (calls ++ calls') reply

section Step

variable {rules : RuleSet n P R} {k : Continuation n P} {found : Match} {left : List UInt8}

/-- A rule does about the lexeme in progress what the verdict says. -/
theorem dispatch_verdict (rules : RuleSet n P R) (k : Continuation n P) (action : ActionId) :
    ∃ events b, rules.dispatch k action = (events, rules.enact b
        (rules.verdict k.rule (Engine.matchOf action k.buffer.window) k.buffer.isExhausted
          k.params).2) ∧
      events.filterMap Event.call? =
        (rules.verdict k.rule (Engine.matchOf action k.buffer.window) k.buffer.isExhausted
          k.params).1 ∧
      (b = k.buffer ∨ b = k.buffer.beginLexeme) := by
  rw [dispatch, verdict]
  dsimp only
  split
  · exact ⟨[], k.buffer, rfl, rfl, .inl rfl⟩
  · have hAction : (Engine.matchOf action k.buffer.window).action = action := rfl
    rw [hAction]
    cases (rules.rule k.rule).actions[action.toNat]? with
    | none => exact ⟨[], k.buffer.beginLexeme, rfl, rfl, .inr rfl⟩
    | some decide => exact ⟨_, k.buffer.beginLexeme, rfl, rfl, .inr rfl⟩

/-- An invocation that starts has a match to come, which is the same on all buffers that stand at
the same place before the same bytes. -/
theorem StartsAtDispatch.exists_foresees (h : rules.StartsAtDispatch) (i : Fin n) {b : ScanBuffer}
    {rest : List UInt8} (hRest : b.Remains rest) :
    ∃ found left, ∀ (b' : ScanBuffer) (params : P), b'.Remains rest →
      b'.window.position = b.window.position →
        rules.Foresees (rules.start i b' params) found left := by
  obtain ⟨backend, a, entry, row, hEngine, hEntry⟩ := h i
  obtain ⟨-, hForm⟩ := Engine.ofAutomaton_eq_ok_iff.mp hEngine
  obtain ⟨found, left, hFound⟩ :=
    Automaton.exists_foresees (Automaton.lt_size_of_state? hEntry) hRest.beginLexeme
  refine ⟨found, left, fun b' params hRest' hPosition => ?_⟩
  have hPoint : (rules.start i b' params).point = backend.point entry := by
    rw [start, ← hForm, Engine.entry_inForm]
  exact .atState hForm.symm hPoint hEntry
    (hFound.congr hRest.beginLexeme hRest'.beginLexeme hPosition rfl)

/-- A refill does not change the match to come. -/
theorem Foresees.refill (h : rules.Foresees k found left) :
    ∃ r b, k.buffer.refill = (.ok r, b) ∧ rules.Foresees { k with buffer := b } found left := by
  obtain ⟨hEngine, hPoint, hRow, hFound⟩ := h
  obtain ⟨r, b, hRefill, hFound'⟩ := hFound.refill
  exact ⟨r, b, hRefill, .atState hEngine hPoint hRow hFound'⟩

/-- **A step makes the verdict on the match to come**, or asks for a refill and does not change
which match is to come. -/
theorem Foresees.step_cases (h : rules.Foresees k found left) :
    (∃ events b, rules.step k =
        (events, rules.enact b (rules.verdict k.rule found left.isEmpty k.params).2) ∧
      events.filterMap Event.call? = (rules.verdict k.rule found left.isEmpty k.params).1 ∧
      b.Remains left ∧ b.window.position = found.span.stop) ∨
      ∃ k', k'.rule = k.rule ∧ k'.params = k.params ∧ k'.buffer.toCome = k.buffer.toCome ∧
        0 < k.buffer.toCome ∧ rules.Foresees k' found left ∧
        rules.step k =
          if (rules.rule k.rule).hooked then ([], .suspended k') else refillInPlace k' := by
  obtain @⟨backend, a, entry, s, row, hEngine, hPoint, hRow, hFound⟩ := h
  rcases hFound.scan backend entry with ⟨action, w, hRun, rfl, hLeft, hDry⟩ |
    ⟨q, row', lexeme, hEnd, hRow', hRun, hFound'⟩
  · rw [← hEngine, ← hPoint] at hRun
    have hExhausted := hLeft.isExhausted_eq (hDry row hRow)
    obtain ⟨events, b, hDispatch, hCalls, hBuffer⟩ :=
      rules.dispatch_verdict { k with buffer := { k.buffer with window := w } } action
    rw [hExhausted] at hDispatch hCalls
    refine .inl ⟨events, b, (rules.step_of_matched hRun).trans hDispatch, hCalls, ?_⟩
    rcases hBuffer with rfl | rfl
    · exact ⟨hLeft, rfl⟩
    · exact ⟨hLeft.beginLexeme, w.position_beginLexeme⟩
  · rw [← hEngine, ← hPoint] at hRun
    let w := k.buffer.window.reached lexeme []
    refine .inr ⟨k.stopAt (backend.point q) w, rfl, rfl, rfl, ?_, ?_, rules.step_of_refill hRun⟩
    · simp [ScanBuffer.toCome, hEnd]
    · exact .atState hEngine rfl hRow' hFound'

end Step

section Follow

variable {rules : RuleSet n P R} {k : Continuation n P}

/-- A decision that ends an invocation gives its reply, and the host is not asked. -/
theorem follow_of_reply {hook : Hook n P R ω} {fuel : Nat} {events : List (Event n P R)}
    {b : ScanBuffer} {decision : Decision n P R} {reply : Except LexError R}
    (h : rules.step k = (events, rules.enact b decision)) (hReply : decision.reply? = some reply)
    (c : Course n P R ω) :
    ∃ c', rules.follow hook (fuel + 1) k c = some (reply, c') ∧ c'.host = c.host ∧
      c'.calls = c.calls ++ events.filterMap Event.call? := by
  rw [follow, h]
  cases decision with
  | finish result =>
    cases hReply
    refine ⟨_, rfl, rfl, ?_⟩
    simp [Course.calls_record, Event.call?]
  | fail error =>
    cases hReply
    refine ⟨_, rfl, rfl, ?_⟩
    simp [Course.calls_record, Event.call?]
  | invoke j params => cases hReply

/-- **An invocation that ends without hooks has a chain**, with its calls and its reply. -/
theorem chain_of_follow (hRules : rules.StartsAtDispatch)
    (hHooked : ∀ i : Fin n, (rules.rule i).hooked = false)
    {hook : Hook n P R ω} {fuel : Nat} {found : Match} {left : List UInt8}
    (hFound : rules.Foresees k found left) {c c' : Course n P R ω} {reply : Except LexError R}
    (h : rules.follow hook fuel k c = some (reply, c')) :
    ∃ calls, rules.Chain k.rule k.params found left calls reply ∧ c'.calls = c.calls ++ calls := by
  induction fuel generalizing k c found left with
  | zero => cases h
  | succ fuel ih =>
    rcases hFound.step_cases with ⟨events, b, hStep, hCalls, hLeft, hStop⟩ |
      ⟨k', hRule, hParams, -, -, hFound', hStep⟩
    · rcases hVerdict : rules.verdict k.rule found left.isEmpty k.params with ⟨calls, decision⟩
      rw [hVerdict] at hStep hCalls
      dsimp only at hStep hCalls
      cases hReply : decision.reply? with
      | some reply' =>
        obtain ⟨c'', hFollow, -, hCalls'⟩ := follow_of_reply hStep hReply c
        rw [hFollow] at h
        cases h
        exact ⟨calls, .ended hVerdict hReply, by rw [hCalls', hCalls]⟩
      | none =>
        cases decision with
        | finish result => cases hReply
        | fail error => cases hReply
        | invoke j params =>
          rw [follow_of_next hStep] at h
          obtain ⟨found', left', hNext⟩ := hRules.exists_foresees j hLeft
          obtain ⟨calls', hChain, hCalls'⟩ := ih (hNext b params hLeft rfl) h
          refine ⟨calls ++ calls', .invoked hVerdict ?_ hChain, ?_⟩
          · intro b' hRest hPosition
            exact hNext b' params hRest (hPosition.trans hStop.symm)
          · rw [hCalls', Course.calls_record, hCalls, List.append_assoc]
    · -- a refill in place
      rw [hHooked, if_neg Bool.false_ne_true, refillInPlace] at hStep
      obtain ⟨r, b, hRefill, hFound''⟩ := hFound'.refill
      rw [hRefill] at hStep
      rw [follow_of_next hStep] at h
      obtain ⟨calls, hChain, hCalls⟩ := ih hFound'' h
      rw [Course.calls_record, call?_refillEvents, List.append_nil] at hCalls
      rw [← hRule, ← hParams]
      exact ⟨calls, hChain, hCalls⟩

end Follow

section Unhooked

variable (rules : RuleSet n P R)

theorem verdict_unhooked (i : Fin n) (found : Match) (exhausted : Bool) (params : P) :
    rules.unhooked.verdict i found exhausted params = rules.verdict i found exhausted params := by
  simp only [verdict, rule_unhooked]

theorem StartsAtDispatch.unhooked (h : rules.StartsAtDispatch) :
    rules.unhooked.StartsAtDispatch := by
  intro i
  rw [rule_unhooked]
  exact h i

theorem Foresees.of_unhooked {k : Continuation n P} {found : Match} {left : List UInt8}
    (h : rules.unhooked.Foresees k found left) : rules.Foresees k found left := by
  obtain ⟨hEngine, hPoint, hRow, hFound⟩ := h
  rw [rule_unhooked] at hEngine
  exact .atState hEngine hPoint hRow hFound

/-- A chain does not depend on which rules are hooked. -/
theorem Chain.of_unhooked {i : Fin n} {params : P} {found : Match} {left : List UInt8}
    {calls : List (Fin n × Match × P)} {reply : Except LexError R}
    (h : rules.unhooked.Chain i params found left calls reply) :
    rules.Chain i params found left calls reply := by
  induction h with
  | ended hVerdict hReply =>
    rw [verdict_unhooked] at hVerdict
    exact .ended hVerdict hReply
  | invoked hVerdict hNext _ ih =>
    rw [verdict_unhooked] at hVerdict
    refine .invoked hVerdict (fun b hRest hPosition => ?_) ih
    rw [← start_unhooked]
    exact (hNext b hRest hPosition).of_unhooked

end Unhooked

end RuleSet

end StreamLexer
