import StreamLexer.Automaton.Walk
import StreamLexer.Program.RunTable

/-!
# Programs of units

A program is a list of units that pass control to each other. A unit either reports an action at
once, or looks at the next symbol and picks a transfer from it; when the window is dry it asks for
a refill. Control that passes on reads the symbol; reading the end of input moves nothing, so a
program that passes control around there without end is stopped.

## Main definitions

* `Choice`, `ScanUnit`, `Program`: the parts
* `Program.ofUnits`: a program of hand-written units
* `Program.ofAutomaton`: one unit per state
* `Program.walk`, `Program.run`: running a program over pending bytes, over a window
-/

namespace StreamLexer

/-- How a unit picks its transfer from the symbol that it sees. -/
inductive Choice where
  /-- The same for every symbol. -/
  | always (transfer : Transfer)
  /-- By the run that the symbol belongs to. -/
  | runs (table : RunTable)
  /-- By a function of the symbol. -/
  | pick (transfer : Symbol → Transfer)

namespace Choice

/-- The transfer picked for a symbol. -/
def transfer : Choice → Symbol → Transfer
  | always t, _ => t
  | runs table, x => table.lookup x
  | pick f, x => f x

/-- The runs of a function, or its only value. -/
def ofFunction (f : Symbol → Transfer) : Choice :=
  let table := RunTable.ofFunction f
  have h := table.nonempty
  if table.runs.size = 1 then always table.runs[0].transfer else runs table

/-- The transfer of the first case whose bounds hold the symbol's number. -/
def ofCases (cases : List (Nat × Nat × Transfer)) (otherwise : Transfer) : Choice :=
  pick fun x =>
    match cases.find? fun c => c.1 ≤ x.index.val && x.index.val ≤ c.2.1 with
    | some c => c.2.2
    | none => otherwise

end Choice

/-- A step of a program. -/
inductive ScanUnit where
  /-- Reports an action without looking at the input. -/
  | report (action : ActionId)
  /-- Picks a transfer from the next symbol; in a dry window, asks for a refill to go on at the
  unit `dry`. -/
  | read (dry : UnitId) (choice : Choice)

/-- Units that pass control to each other. -/
structure Program where
  units : Array ScanUnit
  /-- The highest action that the program reports, as far as it is known. -/
  maxAction? : Option ActionId
  nonempty : 0 < units.size

namespace Program

/-- A program of hand-written units, whose actions are not known. -/
def ofUnits (units : List ScanUnit) : Except Malformed Program :=
  if h : 0 < units.toArray.size then .ok ⟨units.toArray, none, h⟩ else .error .noUnits

/-- The number of units. -/
def size (p : Program) : Nat := p.units.size

/-- The unit of a state, if there are so many. -/
def unitOf? (p : Program) (s : StateId) : Option UnitId :=
  if s.toNat < p.size then some s else none

/-- What a state does on a symbol, with a terminal target resolved to its action. -/
def resolve (a : Automaton) (s : StateId) (x : Symbol) : Transfer :=
  match a.step? s x with
  | none => .goto s
  | some target =>
    match a.action? target with
    | some action => .report action
    | none => .goto target

/-- The unit of a state. -/
def unitOfState (a : Automaton) (id : StateId) : State → ScanUnit
  | .terminal action => .report action
  | .dispatch _ => .read id (.ofFunction (resolve a id))

/-- The program of an automaton: one unit per state, of the same number. -/
def ofAutomaton (a : Automaton) : Program where
  units := a.states.mapIdx fun i state => unitOfState a (UInt32.ofNat i) state
  maxAction? := a.maxAction?
  nonempty := by
    rw [Array.size_mapIdx]
    rcases Nat.eq_zero_or_pos a.states.size with h | h
    · have := a.sound
      simp [Tables.defect?, h] at this
    · exact h

/-- Passes control around at the end of input, where nothing more is read. Control that meets more
units than there are goes round without end. -/
def settle (p : Program) : Nat → UnitId → Except Malformed (Outcome UnitId)
  | 0, _ => .error .endless
  | fuel + 1, u =>
    match p.units[u.toNat]? with
    | none => .error (.missingUnit u p.size)
    | some (.report action) => .ok (.matched action)
    | some (.read _ choice) =>
      match choice.transfer .eof with
      | .goto next => p.settle fuel next
      | .refillAt point => .ok (.refill point)
      | .report action => .ok (.matched action)

/-- Runs a program from a unit over pending bytes. -/
def walk (p : Program) (atEnd : Bool) (lexeme : List UInt8) (u : UnitId) :
    List UInt8 → Walk (Except Malformed (Outcome UnitId))
  | [] =>
    if atEnd then ⟨p.settle (p.size + 1) u, lexeme, []⟩
    else match p.units[u.toNat]? with
      | none => ⟨.error (.missingUnit u p.size), lexeme, []⟩
      | some (.report action) => ⟨.ok (.matched action), lexeme, []⟩
      | some (.read dry _) => ⟨.ok (.refill dry), lexeme, []⟩
  | b :: rest =>
    match p.units[u.toNat]? with
    | none => ⟨.error (.missingUnit u p.size), lexeme, b :: rest⟩
    | some (.report action) => ⟨.ok (.matched action), lexeme, b :: rest⟩
    | some (.read _ choice) =>
      match choice.transfer (.byte b) with
      | .goto next => walk p atEnd (b :: lexeme) next rest
      | .refillAt point => ⟨.ok (.refill point), lexeme, b :: rest⟩
      | .report action => ⟨.ok (.matched action), lexeme, b :: rest⟩

/-- Runs a program from a unit over a window. A program that fails has read what it read. -/
def run (p : Program) (w : Window) (u : UnitId) :
    Except Malformed (Outcome UnitId) × Window :=
  let walk := p.walk w.atEnd w.lexeme u w.pending
  (walk.result, w.reached walk.lexeme walk.pending)

/-- How a program is shown. -/
def display (p : Program) : String :=
  let units := p.size
  let highest := match p.maxAction? with
    | none => "None"
    | some action => s!"Some({action})"
  s!"DirectProgram \x7b units: {units}, max_action: {highest} \x7d"

end Program

end StreamLexer
