import StreamLexer.Automaton.Basic
import StreamLexer.Encoding.Json.Value

/-!
# The JSON form of an automaton

The JSON form is an object with the class of every symbol and the states in order. A state is an
object whose only key says whether it reads and gives its targets, or ends and gives its action.
Reading takes the two members in any order, or as the items of an array, skips unknown members, and
refuses repeated or missing ones. Numbers have to be written as plain decimal digits.

## Main definitions

* `TablesJson.ofTables`, `TablesJson.encode`: the value and the text of tables
* `TablesJson.toTables?`, `TablesJson.read`: the tables of a value, and of a text
* `TablesJson.decode`: the automaton of a text
-/

namespace StreamLexer.TablesJson

open Json (Value)

/-- A number as it is written. -/
def ofNat (n : Nat) : Value := .number (Digits.ofNat n)

/-- The value of a state. -/
def ofState : State → Value
  | .dispatch row =>
    .object [(ascii "dispatch", .array (row.toList.map fun target => ofNat target.toNat))]
  | .terminal action => .object [(ascii "terminal", ofNat action.toNat)]

/-- The value of tables. -/
def ofTables (t : Tables) : Value :=
  .object
    [(ascii "classes", .array (t.classes.toList.map fun c => ofNat c.toNat)),
      (ascii "states", .array (t.states.toList.map ofState))]

/-- The text of tables. -/
def encode (t : Tables) : List UInt8 := (ofTables t).print

/-- The number that plain decimal digits stand for, if it is below `bound`. -/
def toNat? (bound : Nat) : Value → Option Nat
  | .number text => Digits.number? bound text
  | _ => none

/-- The items of an array, each read as a number below `bound`. -/
def toNats? (bound : Nat) : Value → Option (List Nat)
  | .array items => items.mapM (toNat? bound)
  | _ => none

/-- The state of a value. -/
def toState? : Value → Option State
  | .object [(key, v)] => do
    match ← Json.unescape? key with
    | "dispatch" => return .dispatch ((← toNats? UInt32.size v).map UInt32.ofNat).toArray
    | "terminal" => return .terminal (UInt32.ofNat (← toNat? UInt32.size v))
    | _ => none
  | _ => none

/-- The tables of the two parts of a value. -/
def ofParts? (classes states : Value) : Option Tables := do
  let classes ← ClassMap.ofList? ((← toNats? UInt16.size classes).map UInt16.ofNat)
  match states with
  | .array items => return ⟨classes, (← items.mapM toState?).toArray⟩
  | _ => none

/-- The only member of a key, if there is exactly one. -/
def only? (key : String) (members : List (String × Value)) : Option Value :=
  match members.filter fun m => m.1 = key with
  | [(_, v)] => some v
  | _ => none

/-- The tables of a value. All keys have to be text, also the unknown ones. -/
def toTables? : Value → Option Tables
  | .array [classes, states] => ofParts? classes states
  | .object members => do
    let members ← members.mapM fun m => (Json.unescape? m.1).map fun key => (key, m.2)
    ofParts? (← only? "classes" members) (← only? "states" members)
  | _ => none

/-- The tables of a text. -/
def read (bytes : List UInt8) : Except FormatFault Tables :=
  match (Json.parse? bytes).bind toTables? with
  | some t => .ok t
  | none => .error .json

/-- The automaton of a text. -/
def decode (bytes : List UInt8) : Except LexError Automaton :=
  match read bytes with
  | .error fault => .error (.tableFormat fault)
  | .ok t => (Automaton.ofTables t).mapError .malformed

end StreamLexer.TablesJson
