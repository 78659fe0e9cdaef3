import StreamLexer.Proofs.Automaton.WellFormed
import StreamLexer.Proofs.Rule.Course

/-!
# Rules without their hooks

Without its hook, a rule that needs more input refills its buffer in place and scans on. Apart from
that it does what it does with its hook, so that a step of the rules is a step of the rules without
their hooks unless it suspends an invocation.

## Main definitions

* `RuleSet.unhooked`: the rules without their hooks
* `wordCount`: a rule that counts words

## Main results

* `RuleSet.step_unhooked_cases`: what a step does without hooks
-/

namespace StreamLexer

variable {n : Nat} {P R : Type}

namespace RuleSet

variable (rules : RuleSet n P R)

/-- The rules without their hooks. -/
def unhooked : RuleSet n P R := rules.map fun rule => { rule with hooked := false }

theorem rule_unhooked (i : Fin n) :
    rules.unhooked.rule i = { rules.rule i with hooked := false } := by
  simp [rule, unhooked]

theorem start_unhooked (i : Fin n) (b : ScanBuffer) (params : P) :
    rules.unhooked.start i b params = rules.start i b params := by
  simp only [start, rule_unhooked]

theorem enact_unhooked (b : ScanBuffer) (decision : Decision n P R) :
    rules.unhooked.enact b decision = rules.enact b decision := by
  cases decision <;> simp only [enact, start_unhooked]

theorem dispatch_unhooked (k : Continuation n P) (action : ActionId) :
    rules.unhooked.dispatch k action = rules.dispatch k action := by
  simp only [dispatch, rule_unhooked, enact_unhooked]

/-- **A step without hooks** refills in place where a hooked rule is suspended, and is the same step
anywhere else. -/
theorem step_unhooked_cases (k : Continuation n P) :
    (∃ k', rules.step k = ([], .suspended k') ∧ rules.unhooked.step k = refillInPlace k') ∨
      rules.unhooked.step k = rules.step k ∧ ∀ k', (rules.step k).2 ≠ .suspended k' := by
  have hUnhooked := rules.rule_unhooked k.rule
  rcases hRun : (rules.rule k.rule).engine.run k.buffer.window k.point with
    ⟨error | action | point, w⟩
  · have hStep := rules.step_of_error hRun
    have hStep' := rules.unhooked.step_of_error (k := k) (by rw [hUnhooked, hRun])
    refine .inr ⟨hStep'.trans hStep.symm, fun k' => ?_⟩
    simp [hStep]
  · have hStep := rules.step_of_matched hRun
    have hStep' := rules.unhooked.step_of_matched (k := k) (by rw [hUnhooked, hRun])
    rw [dispatch_unhooked] at hStep'
    refine .inr ⟨hStep'.trans hStep.symm, fun k' => ?_⟩
    rw [hStep]
    exact rules.dispatch_ne_suspended _ _ _
  · have hStep := rules.step_of_refill hRun
    have hStep' := rules.unhooked.step_of_refill (k := k) (by rw [hUnhooked, hRun])
    rw [hUnhooked, if_neg Bool.false_ne_true] at hStep'
    by_cases hHooked : (rules.rule k.rule).hooked = true
    · rw [if_pos hHooked] at hStep
      exact .inl ⟨_, hStep, hStep'⟩
    · rw [if_neg hHooked] at hStep
      refine .inr ⟨hStep'.trans hStep.symm, fun k' => ?_⟩
      rw [hStep]
      exact refillInPlace_ne_suspended _ _

theorem step_unhooked_ne_suspended (k k' : Continuation n P) :
    (rules.unhooked.step k).2 ≠ .suspended k' := by
  rcases rules.step_unhooked_cases k with ⟨k'', -, hStep⟩ | ⟨hStep, hNe⟩
  · rw [hStep]
    exact refillInPlace_ne_suspended _ _
  · rw [hStep]
    exact hNe k'

end RuleSet

/-- A hooked rule that counts words. -/
def wordCount : RuleSet 1 Nat Nat :=
  #v[{ name := "words"
       engine := .table Automaton.words 0
       actions := #[fun _ count => .finish count, fun _ count => .invoke 0 count,
         fun _ count => .invoke 0 (count + 1)]
       hooked := true }]

/-- Two words, the first of which is cut into two chunks. -/
def twoWords : ScanBuffer := .ofSource [97] (.queue [.more [98, 32], .last [99]])

theorem exists_reply_wordCount : ∃ reply c,
    wordCount.unhooked.invoke Hook.passThrough 12 0 twoWords 0 (.ofHost ()) = some (reply, c) := by
  have hSome : (wordCount.unhooked.invoke Hook.passThrough 12 0 twoWords 0
      (.ofHost ())).isSome = true := by decide +kernel
  obtain ⟨⟨reply, c⟩, hEnds⟩ := Option.isSome_iff_exists.mp hSome
  exact ⟨reply, c, hEnds⟩

end StreamLexer
