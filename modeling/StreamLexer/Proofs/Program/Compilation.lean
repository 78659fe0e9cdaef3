import StreamLexer.Program.Basic
import StreamLexer.Proofs.Automaton.Walk
import StreamLexer.Proofs.Program.RunTable

/-!
# Compiled automata

The program of an automaton has one unit per state. A unit does on a symbol what the tables say,
whichever of its two forms it has, so that the program walks exactly as the automaton does: it never
meets a missing unit, and never passes control around without end.

## Main definitions

* `Choice.transfer?`: the transfer of a symbol, if its run is found

## Main results

* `Choice.transfer_ofFunction`, `Choice.transfer?_ofFunction`: both forms of a choice pick the
  function's values
* `Program.walk_ofAutomaton`: the program of an automaton walks as the automaton
-/

namespace StreamLexer

/-- **Both forms of a choice pick the function's values.** -/
theorem Choice.transfer_ofFunction (f : Symbol → Transfer) (x : Symbol) :
    (Choice.ofFunction f).transfer x = f x := by
  rw [← RunTable.lookup_ofFunction f x, Choice.ofFunction]
  split
  · next hSize =>
    have hPlace : (RunTable.ofFunction f).place x = 0 := by
      have hLt := (RunTable.ofFunction f).place_lt x
      omega
    simp only [transfer, RunTable.lookup, hPlace]
  · rfl

/-- The transfer picked for a symbol, if a choice by runs finds the run of the symbol. -/
def Choice.transfer? : Choice → Symbol → Option Transfer
  | always t, _ => some t
  | runs table, x => table.lookup? x
  | pick f, x => some (f x)

/-- A choice of a function finds the run of every symbol. -/
theorem Choice.transfer?_ofFunction (f : Symbol → Transfer) (x : Symbol) :
    (Choice.ofFunction f).transfer? x = some (f x) := by
  rw [← transfer_ofFunction f x, Choice.ofFunction]
  split
  · rfl
  · exact (RunTable.lookup?_ofFunction f x).trans
      (congrArg some (RunTable.lookup_ofFunction f x).symm)

namespace Program

variable {a : Automaton} {s target : StateId} {row : Array StateId} {x : Symbol}

theorem unit?_ofAutomaton {state : State} (h : a.state? s = some state) :
    (ofAutomaton a).units[s.toNat]? = some (unitOfState a s state) := by
  rw [Tables.state?] at h
  simp only [ofAutomaton, Array.getElem?_mapIdx, h, Option.map_some, UInt32.ofNat_toNat]

theorem resolve_of_action {action : ActionId} (hStep : a.step? s x = some target)
    (hAction : a.action? target = some action) : resolve a s x = .report action := by
  simp only [resolve, hStep, hAction]

theorem resolve_of_none (hStep : a.step? s x = some target) (hAction : a.action? target = none) :
    resolve a s x = .goto target := by
  simp only [resolve, hStep, hAction]

/-- **The program of an automaton walks as the automaton.** -/
theorem walk_ofAutomaton {atEnd : Bool} {lexeme pending : List UInt8}
    {r : Walk (Outcome StateId)} (h : a.Walks atEnd lexeme s pending r) :
    (ofAutomaton a).walk atEnd lexeme s pending = ⟨.ok r.result, r.lexeme, r.pending⟩ := by
  -- one case for each rule of the walk
  induction h with
  | @terminal lexeme s pending action hState =>
    have hUnit := unit?_ofAutomaton hState
    cases pending <;> simp [walk, settle, hUnit, unitOfState]
  | dry hEnd hState => simp [walk, hEnd, unit?_ofAutomaton hState, unitOfState]
  | finish hEnd hState hStep hAction =>
    simp [walk, settle, hEnd, unit?_ofAutomaton hState, unitOfState, Choice.transfer_ofFunction,
      resolve_of_action hStep hAction]
  | report hState hStep hAction =>
    simp only [walk, unit?_ofAutomaton hState, unitOfState, Choice.transfer_ofFunction,
      resolve_of_action hStep hAction]
  | read hState hStep hAction _ ih =>
    simp only [walk, unit?_ofAutomaton hState, unitOfState, Choice.transfer_ofFunction,
      resolve_of_none hStep hAction, ih]

/-- The program of an automaton runs over a window as the automaton walks. -/
theorem run_ofAutomaton {w : Window} {r : Walk (Outcome StateId)}
    (h : a.Walks w.atEnd w.lexeme s w.pending r) :
    (ofAutomaton a).run w s = (.ok r.result, w.reached r.lexeme r.pending) := by
  simp only [run, walk_ofAutomaton h]

end Program

end StreamLexer
