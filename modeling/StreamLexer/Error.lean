import StreamLexer.ResumePoint
import StreamLexer.Symbol

/-!
# Errors

Scanning fails for one of four reasons: the automaton is malformed, the input source failed, an
action refused, or stored tables could not be read. Each error carries its cause as a value; the
wording is a function of the cause.

## Main definitions

* `Malformed`: what is wrong with an automaton, a program, or a rule built on one
* `FormatFault`: what is wrong with stored tables
* `LexError`: the four kinds of error
* `LexError.message`, `LexError.causes`, `LexError.report`: the wording
-/

namespace StreamLexer

/-- What is wrong with an automaton, a program, or a rule built on one. -/
inductive Malformed where
  /-- There is no state at all. -/
  | noStates
  /-- A state's number would not fit a state id. -/
  | tooManyStates (count : Nat)
  /-- A class id is too high for the class ids to be dense. -/
  | sparseClasses (highest : Nat)
  /-- A byte is in the class of the end of input. -/
  | sharedEofClass (byte : UInt8) (cls : UInt16)
  /-- A terminal reports the reserved action. -/
  | reservedAction (state : Nat)
  /-- A row has not one target per class. -/
  | rowLength (state found expected : Nat)
  /-- A row names a state that does not exist. -/
  | missingTarget (state cls : Nat) (target : StateId)
  /-- The end of input leads to a state that reads on. -/
  | continuesAfterEof (state : Nat) (target : StateId)
  /-- A scan is to start at a state that does not exist. -/
  | missingEntry (entry : StateId) (size : Nat)
  /-- An edge was asked for out of a terminal. -/
  | edgeOutOfTerminal (state : StateId)
  /-- An edge was asked for out of a state that did not exist. -/
  | edgeOutOfUnknown (state : StateId)
  /-- A state has no edge on a symbol, and nothing stands in for it. -/
  | noTransition (state : Nat) (symbol : Symbol)
  /-- A program has no unit at all. -/
  | noUnits
  /-- Control passed to a unit that does not exist. -/
  | missingUnit (unit : UnitId) (size : Nat)
  /-- A scan was resumed at a point of the other backend. -/
  | foreignPoint (point : ResumePoint) (backend : Backend)
  /-- A lexeme was empty although input was left. -/
  | emptyMatch (offset : Nat)
  /-- A rule's lexeme was empty although input was left. -/
  | ruleEmptyMatch (rule : String) (action : ActionId) (offset : Nat)
  /-- A rule has no action of the reported number. -/
  | ruleNoAction (rule : String) (action : ActionId) (count : Nat)
  /-- A rule's automaton reports more actions than the rule defines. -/
  | ruleActionsMissing (rule : String) (highest : ActionId) (count : Nat)
  /-- A program passes control around without reading or reporting anything. -/
  | endless
deriving DecidableEq, Repr

/-- The wording of a defect. -/
def Malformed.message : Malformed → String
  | noStates => "automaton has no states"
  | tooManyStates count => s!"{count} states do not fit a state id"
  | sparseClasses highest => s!"class ids must be dense; highest is {highest}"
  | sharedEofClass byte cls =>
    let shown := String.ofList (Hex.ofByte .upper byte)
    s!"byte 0x{shown} shares class {cls} with the EOF sentinel"
  | reservedAction state =>
    let action := StreamLexer.reservedAction
    s!"state {state} uses the reserved action id {action}"
  | rowLength state found expected =>
    s!"state {state} has {found} transitions, expected one per class ({expected})"
  | missingTarget state cls target =>
    s!"state {state} class {cls} targets missing state {target}"
  | continuesAfterEof state target =>
    s!"state {state} continues to dispatch state {target} after EOF"
  | missingEntry entry size => s!"entry state {entry} out of range (0..{size})"
  | edgeOutOfTerminal state => s!"edge out of terminal state {state}"
  | edgeOutOfUnknown state => s!"edge out of unknown state {state}"
  | noTransition state symbol =>
    let shown := symbol.describe
    s!"state {state} has no transition on {shown}"
  | noUnits => "direct program has no units"
  | missingUnit unit size => s!"transfer to missing unit {unit} (program has {size})"
  | foreignPoint point backend =>
    let shown := point.display
    let name := backend.name
    s!"{shown} does not belong to a {name} engine"
  | emptyMatch offset => s!"empty match at offset {offset} before end of input"
  | ruleEmptyMatch rule action offset =>
    s!"rule {rule}: empty match for action {action} at offset {offset} before end of input"
  | ruleNoAction rule action count => s!"rule {rule} has no action {action} ({count} defined)"
  | ruleActionsMissing rule highest count =>
    s!"rule {rule}: automaton reports action {highest} but only {count} are defined"
  | endless => "control passes from unit to unit without end"

/-- What is wrong with stored tables. -/
inductive FormatFault where
  /-- There is no room for the header. -/
  | tooShort
  /-- The first bytes are not the format's mark. -/
  | badMagic
  /-- A word of the given number of bits is cut off. -/
  | truncated (bits : Nat)
  /-- More states are announced than the rest can hold. -/
  | cannotFit (states remaining : Nat)
  /-- Bytes follow the last state. -/
  | trailing (count : Nat)
  /-- The text is no JSON, or no tables. -/
  | json
deriving DecidableEq, Repr

/-- The wording of a format fault. -/
def FormatFault.message : FormatFault → String
  | tooShort => "compact tables too short"
  | badMagic => "bad magic in compact tables"
  | truncated bits => s!"truncated u{bits}"
  | cannotFit states remaining =>
    s!"{states} states cannot fit in {remaining} remaining bytes"
  | trailing count => s!"{count} trailing bytes after compact tables"
  | json => "failed to parse tables JSON"

/-- Why scanning, or reading stored tables, failed. -/
inductive LexError where
  /-- The automaton, program or rule is malformed. -/
  | malformed (cause : Malformed)
  /-- The input source failed; the causes go from the outermost inwards. -/
  | rawInput (causes : List String)
  /-- An action or a hook refused. -/
  | action (reason : String)
  /-- Stored tables could not be read. -/
  | tableFormat (cause : FormatFault)
deriving DecidableEq, Repr

namespace LexError

/-- The wording of an error, without the causes reported by others. -/
def message : LexError → String
  | malformed cause => "malformed automaton: " ++ cause.message
  | rawInput _ => "raw input source failed"
  | action _ => "action failed"
  | tableFormat cause => "bad table encoding: " ++ cause.message

/-- The causes reported by a source or an action, from the outermost inwards. -/
def causes : LexError → List String
  | rawInput causes => causes
  | action reason => [reason]
  | _ => []

/-- The wording of an error and of its causes, in one line. -/
def report (e : LexError) : String :=
  ": ".intercalate (e.message :: e.causes)

end LexError

end StreamLexer
