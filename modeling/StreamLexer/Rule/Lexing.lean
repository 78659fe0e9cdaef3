import StreamLexer.Lexing
import StreamLexer.Rule.Course

/-!
# Lexing by a rule

A stream can be lexed by invoking one rule over and over whose actions hand back their lexemes. The
matches are those of batch lexing, whether the rule is hooked or not; what differs is that a hooked
rule is suspended once for every delivery.

## Main definitions

* `RuleLexing`: the matches, and how often the rule was suspended and its buffer refilled
* `Engine.lexByRule`: lexes an input cut into chunks
-/

namespace StreamLexer

/-- The outcome of lexing by a rule. -/
structure RuleLexing where
  found : List Match
  suspensions : Nat
  refills : Nat
deriving DecidableEq, Repr

namespace RuleLexing

/-- A rule that hands back its lexemes. -/
def rule (e : Engine) (actions : Nat) (hooked : Bool) : Except Malformed (Rule 1 Unit Match) :=
  Rule.ofParts "harness" e (Array.replicate actions fun found () => .finish found) hooked

/-- Invokes the rule up to an empty match, at most so many times, with so many scans in a row at
most for each. What is found and logged so far stands latest first. -/
def collect (rules : RuleSet 1 Unit Match) (scans : Nat) :
    Nat → RuleLexing → List LogLine → ScanBuffer → Except LexError RuleLexing × List LogLine
  | 0, _, log, _ => (.error (.malformed .endless), log)
  | fuel + 1, sofar, log, b =>
    match rules.invoke Hook.passThrough scans 0 b () (.ofHost ()) with
    | none => (.error (.malformed .endless), log)
    | some (reply, c) =>
      let log := c.events.filterMap rules.logLine? ++ log
      match reply with
      | .error error => (.error error, log)
      | .ok found =>
        let b := (c.leftBuffer? fun _ => true).getD b
        let sofar :=
          ⟨found :: sofar.found, sofar.suspensions + c.suspensions, b.refills⟩
        if found.span.isEmpty then
          if b.isExhausted then (.ok sofar, log)
          else (.error (.malformed (.emptyMatch b.window.position)), log)
        else collect rules scans fuel sofar log b

end RuleLexing

/-- Lexes an input cut into chunks by a rule with so many actions. Gives the outcome, and the log
lines of its suspensions, refills and resumptions, in order. -/
def Engine.lexByRule (e : Engine) (actions : Nat) (input : List UInt8) (cuts : List Nat)
    (hooked : Bool) : Except LexError RuleLexing × List LogLine :=
  match RuleLexing.rule e actions hooked with
  | .error cause => (.error (.malformed cause), [])
  | .ok rule =>
    let b := ScanBuffer.ofSource [] (.split input cuts)
    let (outcome, log) :=
      RuleLexing.collect #v[rule] (e.scanBound b) (input.length + 1) ⟨[], 0, 0⟩ [] b
    (outcome.map fun r => { r with found := r.found.reverse }, log.reverse)

end StreamLexer
