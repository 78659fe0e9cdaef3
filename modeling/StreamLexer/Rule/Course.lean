import StreamLexer.Rule.Basic

/-!
# The course of an invocation

An invocation without hooks goes on step by step until it ends. When a hooked rule is suspended,
its host makes a plan: to answer in the rule's place, or to resume a continuation and go on by what
comes of it. The continuation resumed need not be the one that was suspended, and one can be
resumed more than once. Whatever is resumed first takes in one delivery.

Invocations may go on for ever, so that they are followed for a number of scans in a row at most.

## Main definitions

* `Plan`, `Hook`: what a host does about a suspended rule
* `Course`: the host, and the events so far
* `RuleSet.follow`: an invocation from a continuation on
* `RuleSet.resume`, `RuleSet.invoke`: a suspended invocation, a new one
-/

namespace StreamLexer

/-- What a host does about a suspended rule. -/
inductive Plan (n : Nat) (P R : Type) where
  /-- Answers in the rule's place. -/
  | answer (reply : Except LexError R)
  /-- Resumes a continuation, and goes on by what comes of it. -/
  | resume (k : Continuation n P) (next : Except LexError R → Plan n P R)

/-- A host of type `ω` makes a plan for every suspended rule. -/
abbrev Hook (n : Nat) (P R ω : Type) := Continuation n P → ω → Plan n P R × ω

/-- The host, and the events so far, latest first. -/
structure Course (n : Nat) (P R ω : Type) where
  host : ω
  events : List (Event n P R)

variable {n : Nat} {P R ω : Type}

/-- Resumes at once, and answers what comes of it. -/
def Plan.passThrough (k : Continuation n P) : Plan n P R := .resume k .answer

/-- A host that resumes every suspended rule at once. -/
def Hook.passThrough : Hook n P R ω := fun k host => (.passThrough k, host)

namespace Course

/-- The course before anything happens. -/
def ofHost (host : ω) : Course n P R ω := ⟨host, []⟩

/-- Adds events, given in order. -/
def record (c : Course n P R ω) (events : List (Event n P R)) : Course n P R ω :=
  { c with events := events.reverse ++ c.events }

/-- The buffer left with the latest result that satisfies `p`. -/
def leftBuffer? (c : Course n P R ω) (p : R → Bool) : Option ScanBuffer :=
  c.events.findSome? fun
    | .finished result b => if p result then some b else none
    | _ => none

/-- The number of suspensions so far. -/
def suspensions (c : Course n P R ω) : Nat :=
  c.events.countP fun
    | .suspended _ => true
    | _ => false

end Course

/-- What comes of an invocation, and the course it took; none if it was given up. -/
abbrev Reply (n : Nat) (P R ω : Type) := Option (Except LexError R × Course n P R ω)

/-- Carries out a plan, given how to resume a continuation. -/
def Plan.carryOut (resume : Continuation n P → Course n P R ω → Reply n P R ω) :
    Plan n P R → Course n P R ω → Reply n P R ω
  | .answer reply, c => some (reply, c)
  | .resume k next, c =>
    match resume k c with
    | none => none
    | some (reply, c) => (next reply).carryOut resume c

/-- Takes in one delivery, and goes on as `follow` says. -/
def Continuation.resumeBy (follow : Continuation n P → Course n P R ω → Reply n P R ω)
    (k : Continuation n P) (c : Course n P R ω) : Reply n P R ω :=
  match k.buffer.refill with
  | (.error error, b) => some (.error error, c.record [.failed error b])
  | (.ok refill, b) =>
    let k := { k with buffer := b }
    follow k (c.record (RuleSet.refillEvents refill ++ [.resumed k]))

namespace RuleSet

/-- Follows an invocation from a continuation on, for so many scans in a row at most. -/
def follow (rules : RuleSet n P R) (hook : Hook n P R ω) :
    Nat → Continuation n P → Course n P R ω → Reply n P R ω
  | 0, _, _ => none
  | fuel + 1, k, c =>
    match rules.step k with
    | (events, .next k) => follow rules hook fuel k (c.record events)
    | (events, .finished result b) =>
      some (.ok result, (c.record events).record [.finished result b])
    | (events, .failed error b) =>
      some (.error error, (c.record events).record [.failed error b])
    | (events, .suspended k) =>
      let c := (c.record events).record [.suspended k]
      let (plan, host) := hook k c.host
      plan.carryOut (Continuation.resumeBy (follow rules hook fuel)) { c with host := host }

/-- Resumes a suspended invocation. -/
def resume (rules : RuleSet n P R) (hook : Hook n P R ω) (fuel : Nat) (k : Continuation n P)
    (c : Course n P R ω) : Reply n P R ω :=
  k.resumeBy (rules.follow hook fuel) c

/-- Invokes a rule on a buffer. -/
def invoke (rules : RuleSet n P R) (hook : Hook n P R ω) (fuel : Nat) (i : Fin n)
    (b : ScanBuffer) (params : P) (c : Course n P R ω) : Reply n P R ω :=
  rules.follow hook fuel (rules.start i b params) c

end RuleSet

end StreamLexer
