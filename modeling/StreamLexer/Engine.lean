import StreamLexer.Input.ScanBuffer
import StreamLexer.Program.Basic

/-!
# Engines

An engine is an automaton ready to scan: its tables or its program, with the point where every
lexeme starts. One scan of the window stops with an action or for want of input; the next match is
found by refilling and going on at the same point until an action is reported.

## Main definitions

* `Engine`, `Engine.ofAutomaton`, `Engine.ofProgram`: tables or a program, with an entry
* `Engine.run`: one scan of a window from a resume point
* `Match`: an action, with the span and the bytes of its lexeme
* `Engine.nextMatch`: the next lexeme of a stream
-/

namespace StreamLexer

/-- Tables or a program, with the point where every lexeme starts. -/
inductive Engine where
  | table (automaton : Automaton) (entry : StateId)
  | direct (program : Program) (entry : UnitId)

/-- A lexeme: its action, where it stands in the stream, and its bytes. -/
structure Match where
  action : ActionId
  span : Span
  text : List UInt8
deriving DecidableEq, Repr

namespace Engine

/-- An engine for an automaton, in the given form. The entry has to be a state. -/
def ofAutomaton (backend : Backend) (a : Automaton) (entry : StateId) :
    Except Malformed Engine :=
  match a.checkEntry entry with
  | .error cause => .error cause
  | .ok () =>
    match backend with
    | .table => .ok (table a entry)
    | .direct => .ok (direct (Program.ofAutomaton a) entry)

/-- An engine for a program. The entry is not checked until the program is run. -/
def ofProgram (p : Program) (entry : UnitId) : Engine := direct p entry

/-- The form of the automaton. -/
def backend : Engine → Backend
  | table .. => .table
  | direct .. => .direct

/-- Where every lexeme starts. -/
def entry : Engine → ResumePoint
  | table _ entry => .state entry
  | direct _ entry => .unit entry

/-- The highest action reported, as far as it is known. -/
def maxAction? : Engine → Option ActionId
  | table a _ => a.maxAction?
  | direct p _ => p.maxAction?

/-- How an engine is shown. -/
def display (e : Engine) : String :=
  let backend := e.backend.label
  let entry := e.entry.display
  s!"Engine \x7b backend: {backend}, entry: {entry} \x7d"

/-- One scan of a window from a resume point, which has to belong to the engine's backend. -/
def run (e : Engine) (w : Window) (point : ResumePoint) :
    Except LexError (Outcome ResumePoint) × Window :=
  match e, point with
  | table a _, .state s =>
    match a.run? w s with
    | some (outcome, w) => (.ok (outcome.map .state), w)
    | none => (.error (.malformed (.missingEntry s a.size)), w)
  | direct p _, .unit u =>
    match p.run w u with
    | (.ok outcome, w) => (.ok (outcome.map .unit), w)
    | (.error cause, w) => (.error (.malformed cause), w)
  | e, point => (.error (.malformed (.foreignPoint point e.backend)), w)

/-- The lexeme in progress of a window, under an action. -/
def matchOf (action : ActionId) (w : Window) : Match := ⟨action, w.span, w.text⟩

/-- The number of places where a program can stand. Tables never ask for a refill at the end of
the stream, so that their places do not count. -/
def places : Engine → Nat
  | table .. => 0
  | direct p _ => p.size

/-- Scans at the end of the stream, where a refill changes nothing, so many times at most. -/
def matchAtEnd (e : Engine) : Nat → ResumePoint → Window → Except LexError Match × Window
  | 0, _, w => (.error (.malformed .endless), w)
  | fuel + 1, point, w =>
    match e.run w point with
    | (.error error, w) => (.error error, w)
    | (.ok (.matched action), w) => (.ok (matchOf action w), w.beginLexeme)
    | (.ok (.refill point), w) => matchAtEnd e fuel point w

/-- A scan does not change whether the stream ends with the pending bytes. -/
theorem atEnd_run (e : Engine) (w : Window) (point : ResumePoint) :
    (e.run w point).2.atEnd = w.atEnd := by
  unfold run
  split
  · split
    · next h =>
      simp only [Automaton.run?, Option.map_eq_some_iff, Prod.mk.injEq] at h
      obtain ⟨_, _, _, rfl⟩ := h
      rfl
    · rfl
  · split
    · next h => exact congrArg (fun r => Window.atEnd r.2) h.symm
    · next h => exact congrArg (fun r => Window.atEnd r.2) h.symm
  · rfl

/-- Scans and refills until an action is reported. At the end of the stream, a scan that asks for a
refill goes on at another place or with less to read than any before it, or else it never ends. -/
def matchFrom (e : Engine) (point : ResumePoint) (b : ScanBuffer) :
    Except LexError Match × ScanBuffer :=
  let scan := e.run b.window point
  match scan.1 with
  | .error error => (.error error, { b with window := scan.2 })
  | .ok (.matched action) =>
    (.ok (matchOf action scan.2), { b with window := scan.2.beginLexeme })
  | .ok (.refill point) =>
    if _notEnd : b.window.atEnd then
      let (result, w) :=
        e.matchAtEnd ((scan.2.pending.length + 1) * e.places + 1) point scan.2
      (result, { b with window := w })
    else
      let refilled := ScanBuffer.refill { b with window := scan.2 }
      match _taken : refilled.1 with
      | .error error => (.error error, refilled.2)
      | .ok _ => e.matchFrom point refilled.2
termination_by b.toCome
decreasing_by
  have hScan : scan.2.atEnd = b.window.atEnd := atEnd_run e b.window _
  have hLt := ScanBuffer.toCome_refill_lt (by simpa [hScan] using _notEnd) _taken
  simpa only [ScanBuffer.toCome, hScan] using hLt

/-- The next lexeme of a stream, starting at the next byte. -/
def nextMatch (e : Engine) (b : ScanBuffer) : Except LexError Match × ScanBuffer :=
  e.matchFrom e.entry b.beginLexeme

/-- At most so many scans find the next match. -/
def scanBound (e : Engine) (b : ScanBuffer) : Nat :=
  b.source.ahead + 2 + (b.volume + 1) * e.places

end Engine

end StreamLexer
