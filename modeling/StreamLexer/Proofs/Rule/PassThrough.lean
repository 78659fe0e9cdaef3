import StreamLexer.Proofs.Rule.Unhooked

/-!
# Hooks that pass through

A host that resumes every suspended rule at once changes nothing that an invocation shows. The
invocation takes the course that it takes without hooks, with a suspension and a resumption around
every refill of a hooked rule: the same calls of actions, the same deliveries, the same end, and the
same buffer left.

## Main definitions

* `Course.unpaused`: the events of a course but its suspensions and resumptions

## Main results

* `RuleSet.follow_passThrough`: both courses are the same but for suspensions and resumptions
* `RuleSet.left?_of_follow_unhooked`: without hooks, an invocation ends with a buffer left
* `invoke_passThrough`: an invocation that ends without hooks ends alike with them
-/

namespace StreamLexer

variable {n : Nat} {P R ω : Type}

/-- Whether an event is a suspension or a resumption. -/
def Event.isPause : Event n P R → Bool
  | suspended _ => true
  | resumed _ => true
  | _ => false

namespace Course

/-- The events of a course but its suspensions and resumptions, latest first. -/
def unpaused (c : Course n P R ω) : List (Event n P R) := c.events.filter (!·.isPause)

theorem unpaused_record (c : Course n P R ω) (events : List (Event n P R)) :
    (c.record events).unpaused = (events.filter (!·.isPause)).reverse ++ c.unpaused := by
  simp [unpaused, record]

theorem unpaused_suspend (c : Course n P R ω) (k : Continuation n P) (host : ω) :
    (c.suspend k host).unpaused = c.unpaused := rfl

/-- Suspensions and resumptions are no calls. -/
theorem calls_eq_unpaused (c : Course n P R ω) :
    c.calls = c.unpaused.reverse.filterMap Event.call? := by
  rw [calls, unpaused, ← List.filter_reverse, List.filterMap_filter]
  congr 1
  funext event
  cases event <;> rfl

/-- Suspensions and resumptions leave no buffer. -/
theorem left?_eq_unpaused (c : Course n P R ω) : c.left? = c.unpaused.findSome? Event.left? := by
  rw [left?, unpaused]
  induction c.events with
  | nil => rfl
  | cons event events ih =>
    rw [List.findSome?_cons, ih]
    cases event <;> rfl

end Course

/-- What comes of an invocation, and its events but suspensions and resumptions. -/
def Reply.unpaused (r : Reply n P R ω) : Option (Except LexError R × List (Event n P R)) :=
  r.map fun (reply, c) => (reply, c.unpaused)

namespace RuleSet

variable (rules : RuleSet n P R)

/-- **Suspensions that are resumed at once do not show.** -/
theorem follow_passThrough {ω' : Type} (hook : Hook n P R ω') (fuel : Nat) (k : Continuation n P)
    (c : Course n P R ω) (c' : Course n P R ω') (hCourse : c.unpaused = c'.unpaused) :
    (rules.follow Hook.passThrough fuel k c).unpaused =
      (rules.unhooked.follow hook fuel k c').unpaused := by
  -- scan by scan, with the same fuel
  induction fuel generalizing k c c' with
  | zero => rfl
  | succ fuel ih =>
    rcases rules.step_unhooked_cases k with ⟨k', hStep, hStep'⟩ | ⟨hStep, hNe⟩
    · rw [follow_of_suspended hStep, Hook.passThrough, Plan.carryOut_passThrough,
        Continuation.resumeBy, follow, hStep', refillInPlace]
      rcases hRefill : k'.buffer.refill with ⟨error | refill, b⟩
      · simp [Reply.unpaused, Course.unpaused_record, Course.unpaused_suspend, hCourse]
      · refine ih _ _ _ ?_
        simp [Course.unpaused_record, Course.unpaused_suspend, Event.isPause, hCourse]
    · rw [follow, follow, hStep]
      rcases hScan : rules.step k with ⟨events, k' | ⟨result, b⟩ | ⟨error, b⟩ | k'⟩
      · refine ih k' _ _ ?_
        simp only [Course.unpaused_record, hCourse]
      · simp only [Reply.unpaused, Option.map_some, Course.unpaused_record, hCourse]
      · simp only [Reply.unpaused, Option.map_some, Course.unpaused_record, hCourse]
      · exact absurd (congrArg Prod.snd hScan) (hNe k')

/-- Without hooks, what ends leaves a buffer. -/
theorem left?_of_follow_unhooked (hook : Hook n P R ω) {fuel : Nat} {k : Continuation n P}
    {c c' : Course n P R ω} {reply : Except LexError R}
    (h : rules.unhooked.follow hook fuel k c = some (reply, c')) :
    ∃ left, c'.left? = some left := by
  induction fuel generalizing k c with
  | zero => cases h
  | succ fuel ih =>
    rw [follow] at h
    rcases hScan : rules.unhooked.step k with ⟨events, k' | ⟨result, b⟩ | ⟨error, b⟩ | k'⟩
    · rw [hScan] at h
      exact ih h
    · rw [hScan] at h
      cases h
      exact ⟨b, rfl⟩
    · rw [hScan] at h
      cases h
      exact ⟨b, rfl⟩
    · exact absurd (congrArg Prod.snd hScan) (rules.step_unhooked_ne_suspended k k')

end RuleSet

/-- **Hooks that pass through change nothing.** Whenever an invocation ends without hooks, it ends
with the same result or error when any of the rules are hooked and their host resumes every
suspended rule at once. The same actions are called, in the same order, with the same lexemes and
parameters, and the same buffer is left, whose source was asked as often. -/
theorem invoke_passThrough {ω' : Type} (rules : RuleSet n P R) (i : Fin n) (b : ScanBuffer)
    (params : P) (hook : Hook n P R ω) (host : ω) (host' : ω') {fuel : Nat}
    {reply : Except LexError R} {c : Course n P R ω}
    (h : rules.unhooked.invoke hook fuel i b params (.ofHost host) = some (reply, c)) :
    ∃ c', rules.invoke Hook.passThrough fuel i b params (.ofHost host') = some (reply, c') ∧
      c'.calls = c.calls ∧ ∃ left, c.left? = some left ∧ c'.left? = some left := by
  obtain ⟨left, hLeft⟩ := rules.left?_of_follow_unhooked hook h
  have hSame := rules.follow_passThrough hook fuel (rules.start i b params) (.ofHost host')
    (.ofHost host) rfl
  rw [RuleSet.invoke, RuleSet.start_unhooked] at h
  rw [h] at hSame
  obtain ⟨⟨reply', c'⟩, hReply, hEq⟩ := Option.map_eq_some_iff.mp hSame
  obtain ⟨rfl, hUnpaused⟩ := Prod.mk.inj hEq
  refine ⟨c', hReply, ?_, left, hLeft, ?_⟩
  · rw [c'.calls_eq_unpaused, hUnpaused, ← c.calls_eq_unpaused]
  · rw [c'.left?_eq_unpaused, hUnpaused, ← c.left?_eq_unpaused, hLeft]

theorem invoke_passThrough_wordCount :
    ∃ reply c, wordCount.unhooked.invoke Hook.passThrough 12 0 twoWords 0 (.ofHost ()) =
        some (reply, c) ∧
      ∃ c', wordCount.invoke Hook.passThrough 12 0 twoWords 0 (.ofHost ()) = some (reply, c') ∧
        c'.calls = c.calls ∧ ∃ left, c.left? = some left ∧ c'.left? = some left := by
  obtain ⟨reply, c, hEnds⟩ := exists_reply_wordCount
  exact ⟨reply, c, hEnds, invoke_passThrough wordCount 0 twoWords 0 Hook.passThrough () () hEnds⟩

end StreamLexer
