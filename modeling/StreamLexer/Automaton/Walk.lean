import StreamLexer.Automaton.Basic
import StreamLexer.Input.Window

/-!
# Walking the tables

A walk starts at a state and moves over pending bytes from dispatch state to dispatch state. It
ends at a terminal, without reading the symbol that led there, or for want of input at the state
where it stands. Since the end of input always leads to a terminal, a walk never goes on after it.

## Main definitions

* `Outcome`: how a scan ends
* `Walk`: the result of a scan, and the border between lexeme and pending bytes that it leaves
* `Automaton.walk`: the walk over pending bytes
* `Automaton.run?`: the walk over a window
-/

namespace StreamLexer

/-- How a scan ends: with an action to report, or for want of input. -/
inductive Outcome (At : Type) where
  | matched (action : ActionId)
  | refill (point : At)
deriving DecidableEq, Repr

/-- Names the resume point of an outcome in another way. -/
def Outcome.map {α β : Type} (f : α → β) : Outcome α → Outcome β
  | matched action => matched action
  | refill point => refill (f point)

/-- The result of a scan, with the lexeme (latest byte first) and the pending bytes it leaves. -/
structure Walk (ρ : Type) where
  result : ρ
  lexeme : List UInt8
  pending : List UInt8

namespace Automaton

/-- The walk from a state over pending bytes. There is no outcome if the state does not exist. -/
def walk (a : Automaton) (atEnd : Bool) (lexeme : List UInt8) (s : StateId) :
    List UInt8 → Walk (Option (Outcome StateId))
  | [] =>
    match a.state? s with
    | none => ⟨none, lexeme, []⟩
    | some (.terminal action) => ⟨some (.matched action), lexeme, []⟩
    | some (.dispatch _) =>
      if atEnd then ⟨((a.step? s .eof).bind a.action?).map .matched, lexeme, []⟩
      else ⟨some (.refill s), lexeme, []⟩
  | b :: rest =>
    match a.state? s with
    | none => ⟨none, lexeme, b :: rest⟩
    | some (.terminal action) => ⟨some (.matched action), lexeme, b :: rest⟩
    | some (.dispatch row) =>
      match row[(a.classOf (.byte b)).toNat]? with
      | none => ⟨none, lexeme, b :: rest⟩
      | some target =>
        match a.action? target with
        | some action => ⟨some (.matched action), lexeme, b :: rest⟩
        | none => walk a atEnd (b :: lexeme) target rest

/-- The walk from a state over a window, if the state exists. -/
def run? (a : Automaton) (w : Window) (s : StateId) : Option (Outcome StateId × Window) :=
  let walk := a.walk w.atEnd w.lexeme s w.pending
  walk.result.map fun outcome => (outcome, w.reached walk.lexeme walk.pending)

end Automaton

end StreamLexer
