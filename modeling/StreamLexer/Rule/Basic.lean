import StreamLexer.Engine

/-!
# Rules and continuations

A rule scans one lexeme and hands it to the action that the automaton reports, with the parameters
of the invocation. The action ends the invocation with a result or an error, or invokes some rule
of the set on the rest of the stream with new parameters. A hooked rule that needs more input is
suspended: what it needs to go on is a continuation.

## Main definitions

* `Decision`, `Action`: what an action decides
* `Rule`, `RuleSet`: rules that can invoke each other
* `Rule.ofParts`: accepts a rule that defines every action its automaton is known to report
* `Continuation`: an invocation at a resume point
* `RuleSet.step`: one scan of an invocation, and what follows from it
-/

namespace StreamLexer

/-- What an action decides: to end with a result, to end with an error, or to invoke a rule. -/
inductive Decision (n : Nat) (P R : Type) where
  | finish (result : R)
  | fail (error : LexError)
  | invoke (rule : Fin n) (params : P)

/-- An action decides by its lexeme and the parameters of the invocation. -/
abbrev Action (n : Nat) (P R : Type) := Match → P → Decision n P R

/-- A rule of a set of `n` rules, with parameters of type `P` and results of type `R`. -/
structure Rule (n : Nat) (P R : Type) where
  name : String
  engine : Engine
  actions : Array (Action n P R)
  /-- Whether the rule is suspended when it needs more input. -/
  hooked : Bool

/-- Rules that can invoke each other. -/
abbrev RuleSet (n : Nat) (P R : Type) := Vector (Rule n P R) n

/-- An invocation at a resume point, with the buffer and the parameters it goes on with. -/
structure Continuation (n : Nat) (P : Type) where
  rule : Fin n
  point : ResumePoint
  buffer : ScanBuffer
  params : P
deriving DecidableEq, Repr

variable {n : Nat} {P R : Type}

namespace Rule

/-- Accepts a rule that defines every action its automaton is known to report. -/
def ofParts (name : String) (engine : Engine) (actions : Array (Action n P R)) (hooked : Bool) :
    Except Malformed (Rule n P R) :=
  match engine.maxAction? with
  | some highest =>
    if actions.size ≤ highest.toNat then
      .error (.ruleActionsMissing name highest actions.size)
    else .ok ⟨name, engine, actions, hooked⟩
  | none => .ok ⟨name, engine, actions, hooked⟩

/-- How a rule is shown. -/
def display (r : Rule n P R) : String :=
  let name := Text.quote r.name
  let engine := r.engine.display
  let actions := r.actions.size
  let hook := if r.hooked then "true" else "false"
  s!"Rule \x7b name: {name}, engine: {engine}, actions: {actions}, hook: {hook} \x7d"

end Rule

/-- What happens in the course of an invocation. -/
inductive Event (n : Nat) (P R : Type) where
  /-- A rule's action was called. -/
  | acted (rule : Fin n) (found : Match) (params : P)
  /-- A delivery was taken in. -/
  | refilled (refill : Refill)
  /-- A hooked rule was suspended. -/
  | suspended (k : Continuation n P)
  /-- A suspended rule goes on, after its refill. -/
  | resumed (k : Continuation n P)
  /-- An action ended the invocation with a result, and left the buffer. -/
  | finished (result : R) (buffer : ScanBuffer)
  /-- The invocation failed, and left the buffer. -/
  | failed (error : LexError) (buffer : ScanBuffer)
deriving DecidableEq, Repr

/-- What one scan leads to. -/
inductive Step (n : Nat) (P R : Type) where
  /-- The scan goes on, or another invocation starts. -/
  | next (k : Continuation n P)
  | finished (result : R) (buffer : ScanBuffer)
  | failed (error : LexError) (buffer : ScanBuffer)
  | suspended (k : Continuation n P)
deriving DecidableEq, Repr

namespace RuleSet

/-- A rule of the set, by its number. -/
abbrev rule (rules : RuleSet n P R) (i : Fin n) : Rule n P R := rules[i]

/-- The start of an invocation: a new lexeme at the rule's entry. -/
def start (rules : RuleSet n P R) (i : Fin n) (b : ScanBuffer) (params : P) : Continuation n P :=
  ⟨i, (rules.rule i).engine.entry, b.beginLexeme, params⟩

/-- What an action's decision leads to, with the buffer after its lexeme. -/
def enact (rules : RuleSet n P R) (b : ScanBuffer) : Decision n P R → Step n P R
  | .finish result => .finished result b
  | .fail error => .failed error b
  | .invoke i params => .next (rules.start i b params)

/-- Hands the lexeme in progress to the action. An empty lexeme is refused unless the stream is at
its end. -/
def dispatch (rules : RuleSet n P R) (k : Continuation n P) (action : ActionId) :
    List (Event n P R) × Step n P R :=
  let rule := rules.rule k.rule
  let found := Engine.matchOf action k.buffer.window
  if found.span.isEmpty && !k.buffer.isExhausted then
    ([], .failed (.malformed (.ruleEmptyMatch rule.name action found.span.start)) k.buffer)
  else
    let b := k.buffer.beginLexeme
    match rule.actions[action.toNat]? with
    | none => ([], .failed (.malformed (.ruleNoAction rule.name action rule.actions.size)) b)
    | some decide =>
      ([.acted k.rule found k.params], rules.enact b (decide found k.params))

/-- The record of a refill, as events. -/
def refillEvents : Option Refill → List (Event n P R)
  | some refill => [.refilled refill]
  | none => []

/-- One scan of an invocation from its resume point, and what follows from it. -/
def step (rules : RuleSet n P R) (k : Continuation n P) : List (Event n P R) × Step n P R :=
  let rule := rules.rule k.rule
  match rule.engine.run k.buffer.window k.point with
  | (.error error, w) => ([], .failed error { k.buffer with window := w })
  | (.ok (.matched action), w) =>
    rules.dispatch { k with buffer := { k.buffer with window := w } } action
  | (.ok (.refill point), w) =>
    let k := { k with point := point, buffer := { k.buffer with window := w } }
    if rule.hooked then ([], .suspended k)
    else match k.buffer.refill with
      | (.error error, b) => ([], .failed error b)
      | (.ok refill, b) => (refillEvents refill, .next { k with buffer := b })

/-- How a continuation is shown. -/
def displayContinuation (rules : RuleSet n P R) (k : Continuation n P) : String :=
  let rule := Text.quote (rules.rule k.rule).name
  let point := k.point.display
  let position := k.buffer.window.position
  s!"Continuation \x7b rule: {rule}, at: {point}, position: {position} \x7d"

/-- The log line of an event, if it has one. -/
def logLine? (rules : RuleSet n P R) : Event n P R → Option LogLine
  | .refilled refill => some refill.logLine
  | .suspended k =>
    let rule := (rules.rule k.rule).name
    let point := k.point.display
    let position := k.buffer.window.position
    some (.debug s!"rule {rule}: suspended at {point} (offset {position})")
  | .resumed k =>
    let rule := (rules.rule k.rule).name
    let point := k.point.display
    let pending := k.buffer.window.pending.length
    some (.debug s!"rule {rule}: resuming at {point} with {pending} byte(s) pending")
  | _ => none

end RuleSet

end StreamLexer
