import StreamLexer.Text.Quoted

/-!
# Identifiers and resume points

States, units and actions are numbered by 32-bit words, which is also how the stored tables hold
them. A scan that stops for want of input remembers where it stopped: at a state when it walks
tables, at a unit when it runs a compiled program.

## Main definitions

* `StateId`, `UnitId`, `ActionId`: the numbering
* `reservedAction`: the one action number that no terminal may report
* `Backend`: which of the two forms of an automaton an engine runs, and its names
* `ResumePoint`: where a scan goes on
-/

namespace StreamLexer

/-- The number of an automaton's state. -/
abbrev StateId := UInt32

/-- The number of a program's unit. -/
abbrev UnitId := UInt32

/-- The number that a scan reports for a lexeme. -/
abbrev ActionId := UInt32

/-- The action number that stands for "no action" in stored tables. -/
def reservedAction : ActionId := 0xFFFFFFFF

/-- The form of the automaton that an engine runs. -/
inductive Backend where
  | table
  | direct
deriving DecidableEq, Repr, Inhabited

namespace Backend

/-- The name of a backend in settings and reports. -/
def name : Backend → String
  | table => "table"
  | direct => "direct"

/-- The capitalised name of a backend, used where a value is shown. -/
def label : Backend → String
  | table => "Table"
  | direct => "Direct"

/-- A backend's name is read without regard to the case of ASCII letters, and has synonyms. An
unknown name is handed back in lower case. -/
def ofName (name : String) : Except String Backend :=
  let lower := name.map Char.toLower
  if lower = "table" ∨ lower = "tables" ∨ lower = "interp" then .ok table
  else if lower = "direct" ∨ lower = "units" then .ok direct
  else .error lower

/-- The message for an unknown name, given in lower case. -/
def unknownMessage (lower : String) : String :=
  let quoted := Text.quote lower
  s!"unknown backend {quoted} (expected table|direct)"

end Backend

/-- Where a scan goes on: at a state of the tables or at a unit of the program. -/
inductive ResumePoint where
  | state (id : StateId)
  | unit (id : UnitId)
deriving DecidableEq, Repr, Inhabited

namespace ResumePoint

/-- How a resume point is shown. -/
def display : ResumePoint → String
  | state id => s!"State({id})"
  | unit id => s!"Unit({id})"

/-- The number of the state or unit. -/
def id : ResumePoint → UInt32
  | state id => id
  | unit id => id

/-- The backend whose scans stop at such a point. -/
def backend : ResumePoint → Backend
  | state _ => .table
  | unit _ => .direct

end ResumePoint

end StreamLexer
