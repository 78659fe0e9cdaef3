import StreamLexer.Automaton.Basic
import StreamLexer.Log

/-!
# Assembling an automaton

An automaton is assembled state by state and edge by edge. The first edge that covers a symbol at a
state wins, so that a general edge after special ones stands for the rest. A catch-all completes
every state that lacks edges: a missing byte goes to a state that swallows it, a missing end of
input straight to the catch-all's terminal, and the swallowing state goes there on every symbol.

Symbols that all states treat alike share a class. The classes of bytes are numbered by their first
byte; the end of input always has a class of its own, the last.

## Main definitions

* `SymbolSet`, `Edge`, `Draft`: the parts
* `Assembly`: the states drafted so far, with the first fault of their construction
* `Assembly.Step`, `Assembly.apply`: the steps of a construction
* `Draft.successor?`: where a drafted state goes on a symbol
* `Assembly.tables`, `Assembly.build`: the finished tables, and the automaton
-/

namespace StreamLexer

/-- The symbols of an edge. -/
inductive SymbolSet where
  /-- The bytes listed. -/
  | bytes (members : List UInt8)
  /-- The bytes between two bounds, both included. -/
  | range (low high : UInt8)
  /-- Every byte, but not the end of input. -/
  | anyByte
  /-- The end of input. -/
  | eof
  /-- Every symbol. -/
  | all
deriving DecidableEq, Repr

namespace SymbolSet

/-- Whether a set holds a symbol. -/
def covers : SymbolSet → Symbol → Bool
  | bytes members, .byte b => members.contains b
  | range low high, .byte b => low ≤ b && b ≤ high
  | anyByte, .byte _ => true
  | eof, .eof => true
  | all, _ => true
  | _, _ => false

/-- Whether a set holds no symbol. -/
def isEmpty : SymbolSet → Bool
  | bytes members => members.isEmpty
  | range low high => high < low
  | _ => false

end SymbolSet

/-- The target of a set of symbols. -/
structure Edge where
  symbols : SymbolSet
  target : StateId
deriving DecidableEq, Repr

/-- A state under construction. -/
inductive Draft where
  /-- Reads a symbol; its edges stand in the order in which they were added. -/
  | dispatch (edges : Array Edge)
  /-- Reports an action. -/
  | terminal (action : ActionId)
deriving DecidableEq, Repr

namespace Draft

/-- Adds an edge for what the earlier ones leave uncovered. -/
def push (edge : Edge) : Draft → Draft
  | dispatch edges => dispatch (edges.push edge)
  | terminal action => terminal action

/-- Where the state numbered `id` goes on `x`: along the first edge that covers `x`, and nowhere
from a terminal. -/
def successor? (id : StateId) (x : Symbol) : Draft → Option StateId
  | dispatch edges => (edges.find? fun edge => edge.symbols.covers x).map Edge.target
  | terminal _ => some id

end Draft

/-- The states drafted so far, the action of the catch-all if one is asked for, and the first
fault of the construction. -/
structure Assembly where
  drafts : Array Draft
  catchAll? : Option ActionId
  fault? : Option Malformed
deriving DecidableEq, Repr

namespace Assembly

/-- Nothing drafted yet. -/
def empty : Assembly := ⟨#[], none, none⟩

/-- The number that the next drafted state gets. -/
def nextId (b : Assembly) : StateId := UInt32.ofNat b.drafts.size

/-- Drafts a state that reads a symbol. -/
def addDispatch (b : Assembly) : Assembly := { b with drafts := b.drafts.push (.dispatch #[]) }

/-- Drafts a state that reports an action. -/
def addTerminal (b : Assembly) (action : ActionId) : Assembly :=
  { b with drafts := b.drafts.push (.terminal action) }

/-- Asks for a catch-all that reports `action`; the last one asked for counts. -/
def setCatchAll (b : Assembly) (action : ActionId) : Assembly := { b with catchAll? := some action }

/-- Notes a fault unless an earlier one is noted. -/
def blame (b : Assembly) (cause : Malformed) : Assembly :=
  { b with fault? := b.fault?.or (some cause) }

/-- Adds an edge out of `origin`. An edge without symbols does nothing; any other needs a state
that reads a symbol. -/
def addEdge (b : Assembly) (origin : StateId) (symbols : SymbolSet) (target : StateId) : Assembly :=
  if symbols.isEmpty then b
  else match b.drafts[origin.toNat]? with
    | some (.dispatch _) =>
      { b with drafts := b.drafts.modify origin.toNat (Draft.push ⟨symbols, target⟩) }
    | some (.terminal _) => b.blame (.edgeOutOfTerminal origin)
    | none => b.blame (.edgeOutOfUnknown origin)

/-- A step of a construction. -/
inductive Step where
  | dispatch
  | terminal (action : ActionId)
  | edge (origin : StateId) (symbols : SymbolSet) (target : StateId)
  | catchAll (action : ActionId)
deriving DecidableEq, Repr

/-- Takes a step. -/
def apply (b : Assembly) : Step → Assembly
  | .dispatch => b.addDispatch
  | .terminal action => b.addTerminal action
  | .edge origin symbols target => b.addEdge origin symbols target
  | .catchAll action => b.setCatchAll action

/-- The assembly after the given steps. -/
def ofSteps (steps : List Step) : Assembly := steps.foldl apply empty

/-- The drafts with the catch-all worked in: every state gets edges for what it lacks, and two
states follow, the one that swallows a byte and the terminal. -/
def completed (b : Assembly) : Array Draft :=
  match b.catchAll? with
  | none => b.drafts
  | some action =>
    let swallow := b.nextId
    let fallback := swallow + 1
    let complete (d : Draft) := (d.push ⟨.anyByte, swallow⟩).push ⟨.eof, fallback⟩
    ((b.drafts.map complete).push (.dispatch #[⟨.all, fallback⟩])).push (.terminal action)

end Assembly

/-- Where every state of `drafts` goes on a symbol, in order. -/
def columnOf? (drafts : List Draft) (x : Symbol) : List (Option StateId) :=
  drafts.zipIdx.map fun entry => entry.1.successor? (UInt32.ofNat entry.2) x

/-- The first element of every group of alike elements, in order. -/
def firstsBy {α : Type} (alike : α → α → Bool) : List α → List α
  | [] => []
  | x :: xs => x :: (firstsBy alike xs).filter fun y => !alike x y

namespace Assembly

/-- The first symbol, in order, on which a state goes nowhere, with the first such state. -/
def gap? (drafts : List Draft) : Option (Nat × Symbol) :=
  Symbol.all.findSome? fun x =>
    ((columnOf? drafts x).zipIdx.find? fun entry => entry.1.isNone).map fun entry => (entry.2, x)

/-- The tables of drafts that leave no gap. Bytes share a class if every state treats them alike;
the end of input has the last class. -/
def tablesOf (drafts : List Draft) : Tables :=
  let columns : Vector (List (Option StateId)) 256 :=
    Vector.ofFn fun b => columnOf? drafts (.byte (UInt8.ofNat b.val))
  let firsts := firstsBy (fun b c => columns[b] == columns[c]) (List.finRange 256)
  let classes : ClassMap := Vector.ofFn fun i =>
    if h : i.val < 256 then
      UInt16.ofNat (firsts.findIdx fun b => columns[b] == columns[i.val])
    else UInt16.ofNat firsts.length
  let representatives : List Symbol :=
    firsts.map (fun b => .byte (UInt8.ofNat b.val)) ++ [.eof]
  let row (id : StateId) (d : Draft) : State :=
    match d with
    | .terminal action => .terminal action
    | .dispatch _ =>
      .dispatch (representatives.map fun x => (d.successor? id x).getD id).toArray
  ⟨classes, (drafts.zipIdx.map fun entry => row (UInt32.ofNat entry.2) entry.1).toArray⟩

/-- The finished tables, or the first fault: a fault of the construction, else the first gap. -/
def tables (b : Assembly) : Except Malformed Tables :=
  match b.fault? with
  | some cause => .error cause
  | none =>
    let drafts := b.completed.toList
    match gap? drafts with
    | some (id, x) => .error (.noTransition id x)
    | none => .ok (tablesOf drafts)

/-- The finished automaton, or the first fault. -/
def build (b : Assembly) : Except Malformed Automaton :=
  b.tables.bind Automaton.ofTables

end Assembly

/-- The log line for tables that were just assembled. -/
def Tables.assembledLine (t : Tables) : LogLine :=
  let states := t.states.size
  let classes := t.classCount
  .debug s!"built automaton: {states} states, {classes} symbol classes"

/-- What building an assembly gives and what it logs: one line, once its tables are finished. -/
def Assembly.buildLogged (b : Assembly) : Except Malformed Automaton × List LogLine :=
  match b.tables with
  | .error cause => (.error cause, [])
  | .ok t => (Automaton.ofTables t, [t.assembledLine])

end StreamLexer
