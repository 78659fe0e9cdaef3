import StreamLexer.Error

/-!
# Automata

An automaton maps every symbol to a class and gives each of its states either one target per class
(a dispatch state) or an action to report (a terminal). Tables describe one; they are an automaton
if no check finds a defect. The checks make scanning safe: rows have one target per class, targets
exist, no byte is taken for the end of input, and the end of input leads to a terminal.

## Main definitions

* `ClassMap`, `State`, `Tables`: the description
* `Tables.defect?`: the first defect, in the order of the checks
* `Automaton`: tables without a defect
* `Automaton.ofTables`: accepts exactly the tables without a defect
* `Automaton.step?`: the successor of a state on a symbol
-/

namespace StreamLexer

/-- The class of every symbol, by its number. -/
abbrev ClassMap := Vector UInt16 257

/-- The class map with the given classes, if there is one for every symbol. -/
def ClassMap.ofList? (classes : List UInt16) : Option ClassMap :=
  if h : classes.length = 257 then some ⟨classes.toArray, by simpa using h⟩ else none

theorem ClassMap.ofList?_toList (classes : ClassMap) :
    ClassMap.ofList? classes.toList = some classes := by
  simp [ClassMap.ofList?, Vector.toList]

/-- A state reads a symbol and goes on, or reports an action. -/
inductive State where
  /-- Goes on to one target per symbol class. -/
  | dispatch (targets : Array StateId)
  /-- Ends the lexeme and reports an action. -/
  | terminal (action : ActionId)
deriving DecidableEq, Repr, Inhabited

namespace State

/-- The action that a terminal reports. -/
def action? : State → Option ActionId
  | terminal action => some action
  | dispatch _ => none

/-- Whether the state reads a symbol. -/
def isDispatch : State → Bool
  | dispatch _ => true
  | terminal _ => false

end State

/-- The description of an automaton. -/
structure Tables where
  classes : ClassMap
  states : Array State
deriving DecidableEq, Repr

namespace Tables

/-- The class of a symbol. -/
def classOf (t : Tables) (x : Symbol) : UInt16 := t.classes[x.index]

/-- The class of the end of input. -/
def eofClass (t : Tables) : UInt16 := t.classOf .eof

/-- One more than the highest class id. -/
def classCount (t : Tables) : Nat :=
  t.classes.toList.foldl (fun highest c => max highest c.toNat) 0 + 1

/-- A state by its number. -/
def state? (t : Tables) (s : StateId) : Option State := t.states[s.toNat]?

/-- The action reported at a state, if it is a terminal. -/
def action? (t : Tables) (s : StateId) : Option ActionId := (t.state? s).bind State.action?

/-- The first byte that is in the class of the end of input. -/
def sharedEofByte? (t : Tables) : Option UInt8 :=
  ((List.range 256).map UInt8.ofNat).find? fun b => t.classOf (.byte b) = t.eofClass

/-- The first target of a row that does not exist, with its class. -/
def missingTarget? (t : Tables) (row : Array StateId) : Option (StateId × Nat) :=
  row.toList.zipIdx.find? fun target => t.states.size ≤ target.1.toNat

/-- The state that the end of input leads to, if that state reads on. -/
def eofDispatch? (t : Tables) (row : Array StateId) : Option StateId :=
  (row[t.eofClass.toNat]?).filter fun target => (t.action? target).isNone

/-- The first defect of the state numbered `id`, given the number of classes. -/
def stateDefect? (t : Tables) (classes : Nat) (id : Nat) : State → Option Malformed
  | .terminal action => if action = reservedAction then some (.reservedAction id) else none
  | .dispatch row =>
    if row.size ≠ classes then some (.rowLength id row.size classes)
    else match t.missingTarget? row with
      | some (target, cls) => some (.missingTarget id cls target)
      | none => (t.eofDispatch? row).map (.continuesAfterEof id)

/-- The first defect of the states, in order. -/
def statesDefect? (t : Tables) : Option Malformed :=
  let classes := t.classCount
  t.states.toList.zipIdx.findSome? fun entry => t.stateDefect? classes entry.2 entry.1

/-- The first defect of the tables, in the order of the checks. -/
def defect? (t : Tables) : Option Malformed :=
  if t.states.size = 0 then some .noStates
  else if UInt32.size ≤ t.states.size then some (.tooManyStates t.states.size)
  else if 257 < t.classCount then some (.sparseClasses (t.classCount - 1))
  else match t.sharedEofByte? with
    | some b => some (.sharedEofClass b t.eofClass)
    | none => t.statesDefect?

end Tables

/-- Tables without a defect. -/
structure Automaton extends Tables where
  sound : toTables.defect? = none
deriving DecidableEq

namespace Automaton

/-- Accepts the tables without a defect, and reports the first defect of any other. -/
def ofTables (t : Tables) : Except Malformed Automaton :=
  match h : t.defect? with
  | some cause => .error cause
  | none => .ok ⟨t, h⟩

theorem ofTables_eq_ok_iff {t : Tables} {a : Automaton} :
    ofTables t = .ok a ↔ a.toTables = t := by
  constructor
  · intro h
    unfold ofTables at h
    split at h
    · cases h
    · cases h
      rfl
  · rintro rfl
    unfold ofTables
    split
    · next cause h => rw [a.sound] at h; cases h
    · rfl

/-- The number of states. -/
def size (a : Automaton) : Nat := a.states.size

/-- The highest action that a terminal reports. -/
def maxAction? (a : Automaton) : Option ActionId :=
  (a.states.toList.filterMap State.action?).max?

/-- The state that `s` leads to on `x`; a terminal stays where it is. There is none if `s` does
not exist. -/
def step? (a : Automaton) (s : StateId) (x : Symbol) : Option StateId :=
  match a.state? s with
  | none => none
  | some (.terminal _) => some s
  | some (.dispatch row) => row[(a.classOf x).toNat]?

/-- Accepts a state that exists as the start of a scan. -/
def checkEntry (a : Automaton) (entry : StateId) : Except Malformed Unit :=
  if entry.toNat < a.size then .ok () else .error (.missingEntry entry a.size)

end Automaton

end StreamLexer
