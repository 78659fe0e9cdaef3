import StreamLexer.Rule.Course

/-!
# What an invocation shows

An invocation shows its host the calls of its actions, what comes of it, and the buffer that it
leaves, which knows how often its source was asked. A step of it is determined by what the scan of
the window stops with: an error ends it, an action is handed the lexeme, and want of input is
followed by a suspension or by a refill in place.

## Main definitions

* `Course.calls`: the calls of actions so far
* `Course.left?`: the buffer left by the latest end of an invocation
* `Course.suspend`: a course after a suspension
* `Continuation.stopAt`: an invocation whose scan stopped
* `RuleSet.refillInPlace`: what a rule without a hook does when it needs more input

## Main results

* `RuleSet.step_of_error`, `RuleSet.step_of_matched`, `RuleSet.step_of_refill`: what a scan leads to
* `RuleSet.step_cases`: all that a step can do
* `RuleSet.follow_of_next`, `RuleSet.follow_of_suspended`: what a step leads to
-/

namespace StreamLexer

variable {n : Nat} {P R ω : Type}

namespace Event

/-- The call of an action: the rule, the lexeme, and the parameters. -/
def call? : Event n P R → Option (Fin n × Match × P)
  | acted rule found params => some (rule, found, params)
  | _ => none

/-- The buffer left by the end of an invocation. -/
def left? : Event n P R → Option ScanBuffer
  | finished _ b => some b
  | failed _ b => some b
  | _ => none

/-- Whether an event is a suspension. -/
def isSuspension : Event n P R → Bool
  | suspended _ => true
  | _ => false

end Event

namespace Course

/-- The calls of actions so far, in order. -/
def calls (c : Course n P R ω) : List (Fin n × Match × P) := c.events.reverse.filterMap Event.call?

/-- The buffer left by the latest end of an invocation. -/
def left? (c : Course n P R ω) : Option ScanBuffer := c.events.findSome? Event.left?

/-- The course after a suspension that left the host as given. -/
def suspend (c : Course n P R ω) (k : Continuation n P) (host : ω) : Course n P R ω :=
  ⟨host, .suspended k :: c.events⟩

theorem record_record (c : Course n P R ω) (events more : List (Event n P R)) :
    (c.record events).record more = c.record (events ++ more) := by
  simp [record]

theorem suspensions_record (c : Course n P R ω) (events : List (Event n P R)) :
    (c.record events).suspensions = c.suspensions + events.countP Event.isSuspension := by
  show (c.record events).events.countP Event.isSuspension = _
  rw [record, List.countP_append, List.countP_reverse, Nat.add_comm]
  rfl

theorem calls_record (c : Course n P R ω) (events : List (Event n P R)) :
    (c.record events).calls = c.calls ++ events.filterMap Event.call? := by
  simp [calls, record]

theorem calls_suspend (c : Course n P R ω) (k : Continuation n P) (host : ω) :
    (c.suspend k host).calls = c.calls := by
  simp [calls, suspend, Event.call?]

end Course

/-- The continuation of an invocation whose scan stopped. -/
def Continuation.stopAt (k : Continuation n P) (point : ResumePoint) (w : Window) :
    Continuation n P :=
  { k with point := point, buffer := { k.buffer with window := w } }

namespace RuleSet

theorem call?_refillEvents (refill : Option Refill) :
    (refillEvents refill : List (Event n P R)).filterMap Event.call? = [] := by
  cases refill <;> rfl

theorem call?_resumed (refill : Option Refill) (k : Continuation n P) :
    (refillEvents refill ++ [.resumed k] : List (Event n P R)).filterMap Event.call? = [] := by
  simp [call?_refillEvents, Event.call?]

variable (rules : RuleSet n P R)

/-- What an action's decision leads to is not a suspension. -/
theorem dispatch_ne_suspended (k k' : Continuation n P) (action : ActionId) :
    (rules.dispatch k action).2 ≠ .suspended k' := by
  simp only [dispatch]
  split
  · simp
  · split
    · simp
    · next decide _ =>
      cases decide (Engine.matchOf action k.buffer.window) k.params <;> simp [enact]

/-- What a rule without a hook does when it needs more input: it refills its buffer in place. -/
def refillInPlace (k : Continuation n P) : List (Event n P R) × Step n P R :=
  match k.buffer.refill with
  | (.error error, b) => ([], .failed error b)
  | (.ok refill, b) => (refillEvents refill, .next { k with buffer := b })

theorem refillInPlace_ne_suspended (k k' : Continuation n P) :
    (refillInPlace k : List (Event n P R) × Step n P R).2 ≠ .suspended k' := by
  rw [refillInPlace]
  split <;> simp

section Step

variable {k : Continuation n P} {w : Window}

theorem step_of_error {error : LexError}
    (h : (rules.rule k.rule).engine.run k.buffer.window k.point = (.error error, w)) :
    rules.step k = ([], .failed error { k.buffer with window := w }) := by
  simp only [step, h]

theorem step_of_matched {action : ActionId}
    (h : (rules.rule k.rule).engine.run k.buffer.window k.point = (.ok (.matched action), w)) :
    rules.step k = rules.dispatch { k with buffer := { k.buffer with window := w } } action := by
  simp only [step, h]

theorem step_of_refill {point : ResumePoint}
    (h : (rules.rule k.rule).engine.run k.buffer.window k.point = (.ok (.refill point), w)) :
    rules.step k =
      if (rules.rule k.rule).hooked then ([], .suspended (k.stopAt point w))
      else refillInPlace (k.stopAt point w) := by
  simp only [step, h]
  rfl

end Step

section Cases

variable {rules} {k k' : Continuation n P}

/-- **All that a step can do**: it fails, it calls an action and does what the action decides, or it
needs more input. -/
theorem step_cases (rules : RuleSet n P R) (k : Continuation n P) :
    (∃ error b, rules.step k = ([], .failed error b)) ∨
      (∃ m b decision, rules.step k = ([.acted k.rule m k.params], rules.enact b decision)) ∨
      ∃ point w, (rules.rule k.rule).engine.run k.buffer.window k.point =
          (.ok (.refill point), w) ∧
        rules.step k =
          if (rules.rule k.rule).hooked then ([], .suspended (k.stopAt point w))
          else refillInPlace (k.stopAt point w) := by
  rcases hRun : (rules.rule k.rule).engine.run k.buffer.window k.point with
    ⟨error | action | point, w⟩
  · exact .inl ⟨error, _, rules.step_of_error hRun⟩
  · rw [rules.step_of_matched hRun, dispatch]
    dsimp only
    split
    · exact .inl ⟨_, _, rfl⟩
    · split
      · exact .inl ⟨_, _, rfl⟩
      · exact .inr (.inl ⟨_, _, _, rfl⟩)
  · exact .inr (.inr ⟨point, w, rfl, rules.step_of_refill hRun⟩)

/-- Only a hooked rule is suspended, where its scan stops for want of input, and nothing happens
before. -/
theorem exists_run_of_suspended {events : List (Event n P R)}
    (hStep : rules.step k = (events, .suspended k')) :
    events = [] ∧ (rules.rule k.rule).hooked = true ∧ ∃ point w,
      (rules.rule k.rule).engine.run k.buffer.window k.point = (.ok (.refill point), w) ∧
        k' = k.stopAt point w := by
  rcases rules.step_cases k with ⟨error, b', hFails⟩ | ⟨m, b', decision, hActs⟩ |
    ⟨point, w, hRun, hNeeds⟩
  · cases hFails.symm.trans hStep
  · cases decision <;> cases hActs.symm.trans hStep
  · rw [hNeeds] at hStep
    by_cases hHooked : (rules.rule k.rule).hooked = true
    · rw [if_pos hHooked] at hStep
      cases hStep
      exact ⟨rfl, hHooked, point, w, hRun, rfl⟩
    · rw [if_neg hHooked] at hStep
      exact absurd (congrArg Prod.snd hStep) (refillInPlace_ne_suspended _ _)

end Cases

section Follow

variable {rules} {hook : Hook n P R ω} {fuel : Nat} {k k' : Continuation n P}

theorem follow_of_next {events : List (Event n P R)} (h : rules.step k = (events, .next k'))
    (c : Course n P R ω) :
    rules.follow hook (fuel + 1) k c = rules.follow hook fuel k' (c.record events) := by
  rw [follow, h]

/-- A suspended rule goes on by the plan of its host. -/
theorem follow_of_suspended (h : rules.step k = ([], .suspended k')) (c : Course n P R ω) :
    rules.follow hook (fuel + 1) k c =
      (hook k' c.host).1.carryOut (Continuation.resumeBy (rules.follow hook fuel))
        (c.suspend k' (hook k' c.host).2) := by
  rw [follow, h]
  rfl

end Follow

end RuleSet

/-- Resuming at once is going on by what comes of it. -/
theorem Plan.carryOut_passThrough
    (resume : Continuation n P → Course n P R ω → Reply n P R ω) (k : Continuation n P)
    (c : Course n P R ω) : (Plan.passThrough k).carryOut resume c = resume k c := by
  rw [Plan.passThrough, Plan.carryOut]
  cases resume k c <;> rfl

theorem Continuation.resumeBy_of_refill {k : Continuation n P} {r : Option Refill} {b : ScanBuffer}
    (h : k.buffer.refill = (.ok r, b))
    (follow : Continuation n P → Course n P R ω → Reply n P R ω) (c : Course n P R ω) :
    k.resumeBy follow c =
      follow { k with buffer := b }
        (c.record (RuleSet.refillEvents r ++ [.resumed { k with buffer := b }])) := by
  rw [resumeBy, h]

end StreamLexer
