import StreamLexer.Proofs.Program.Compilation

/-!
# Scanning turn by turn

Both forms of an automaton scan in a loop. In a turn of it, the place where the scan stands is
looked up, the next symbol is seen, and what it leads to is looked up again: the tables move over
the symbol if it leads to a state that reads, the program if its unit passes control on. Here each
lookup can miss and a dry window cannot be advanced, and either is a misstep that ends the scan.

From an existing state of an automaton there is no misstep. Each turn but the last two moves over a
pending byte, so that two turns more than there are pending bytes end every scan: by tables, the
symbol that ends the lexeme is seen in one turn and the action reported in the next.

## Main definitions

* `Misstep`, `Turn`: what can go wrong in a turn, and what it comes to otherwise
* `Turn.scan`: a scan of so many turns at most
* `Automaton.turn`, `Program.turn`: a turn of the tables, a turn of a program
* `Program.resolve?`: what a state does on a symbol, looked up in its row

## Main results

* `Automaton.scan_turn`, `Program.scan_turn`: a scan ends in time, and as the walk does
* `scan_safe`: scanning makes no misstep and ends in time
-/

namespace StreamLexer

/-- What can go wrong in a turn of a scan. -/
inductive Misstep where
  | missingState (state : StateId)
  /-- A row has no target for the class of a symbol. -/
  | missingTarget (state : StateId) (symbol : Symbol)
  | missingUnit (unit : UnitId)
  /-- No run of a unit holds a symbol. -/
  | missingRun (unit : UnitId) (symbol : Symbol)
  /-- A window is advanced whose next symbol is not known. -/
  | dryAdvance
deriving DecidableEq, Repr

/-- What a turn of a scan comes to. -/
inductive Turn (At : Type) where
  | done (outcome : Outcome At)
  | again (point : At)
deriving DecidableEq, Repr

/-- A scan of so many turns at most. There is no outcome if they do not end it. -/
def Turn.scan {At : Type} (turn : Window → At → Except Misstep (Turn At × Window)) :
    Nat → Window → At → Except Misstep (Option (Outcome At) × Window)
  | 0, w, _ => .ok (none, w)
  | turns + 1, w, point =>
    match turn w point with
    | .error misstep => .error misstep
    | .ok (.done outcome, w) => .ok (some outcome, w)
    | .ok (.again point, w) => scan turn turns w point

/-- Moves over the next symbol of a window, and goes on at a place. -/
def Turn.advance {At : Type} (w : Window) (point : At) : Except Misstep (Turn At × Window) :=
  match w.advance? with
  | none => .error .dryAdvance
  | some w => .ok (.again point, w)

/-- A turn of a scan by tables. -/
def Automaton.turn (a : Automaton) (w : Window) (s : StateId) :
    Except Misstep (Turn StateId × Window) :=
  match a.state? s with
  | none => .error (.missingState s)
  | some (.terminal action) => .ok (.done (.matched action), w)
  | some (.dispatch row) =>
    match w.peek? with
    | none => .ok (.done (.refill s), w)
    | some x =>
      match row[(a.classOf x).toNat]? with
      | none => .error (.missingTarget s x)
      | some target =>
        match a.state? target with
        | none => .error (.missingState target)
        | some (.terminal _) => .ok (.again target, w)
        | some (.dispatch _) => Turn.advance w target

/-- A turn of a scan by a program. -/
def Program.turn (p : Program) (w : Window) (u : UnitId) :
    Except Misstep (Turn UnitId × Window) :=
  match p.units[u.toNat]? with
  | none => .error (.missingUnit u)
  | some (.report action) => .ok (.done (.matched action), w)
  | some (.read dry choice) =>
    match w.peek? with
    | none => .ok (.done (.refill dry), w)
    | some x =>
      match choice.transfer? x with
      | none => .error (.missingRun u x)
      | some (.goto next) => Turn.advance w next
      | some (.refillAt point) => .ok (.done (.refill point), w)
      | some (.report action) => .ok (.done (.matched action), w)

/-- What the state `s` does on a symbol, looked up in its row. -/
def Program.resolve? (a : Automaton) (s : StateId) (row : Array StateId) (x : Symbol) :
    Except Misstep Transfer :=
  match row[(a.classOf x).toNat]? with
  | none => .error (.missingTarget s x)
  | some target =>
    match a.action? target with
    | some action => .ok (.report action)
    | none => .ok (.goto target)

/-! ### Windows whose border is moved -/

namespace Window

variable {w : Window} {lexeme rest : List UInt8} {b : UInt8}

theorem peek?_reached_cons : (w.reached lexeme (b :: rest)).peek? = some (.byte b) := rfl

theorem peek?_reached_nil_of_atEnd (h : w.atEnd = true) :
    (w.reached lexeme []).peek? = some .eof := by
  simp [peek?, reached, h]

theorem peek?_reached_nil_of_not_atEnd (h : w.atEnd = false) :
    (w.reached lexeme []).peek? = none := by
  simp [peek?, reached, h]

theorem advance_reached_cons {At : Type} (point : At) :
    Turn.advance (w.reached lexeme (b :: rest)) point =
      .ok (.again point, w.reached (b :: lexeme) rest) := rfl

end Window

/-! ### The turns of a walk -/

section Scan

variable {At : Type} {turn : Window → At → Except Misstep (Turn At × Window)} {w w' : Window}
  {point point' : At} {outcome : Outcome At} {turns : Nat}

theorem Turn.scan_of_done (h : turn w point = .ok (.done outcome, w')) :
    scan turn (turns + 1) w point = .ok (some outcome, w') := by
  simp only [scan, h]

theorem Turn.scan_of_again (h : turn w point = .ok (.again point', w')) :
    scan turn (turns + 1) w point = scan turn turns w' point' := by
  simp only [scan, h]

end Scan

variable {a : Automaton} {atEnd : Bool} {lexeme pending : List UInt8} {s target : StateId}
  {r : Walk (Outcome StateId)} {row : Array StateId} {x : Symbol}

theorem Automaton.turn_of_terminal {action : ActionId} {w : Window}
    (h : a.state? s = some (.terminal action)) :
    a.turn w s = .ok (.done (.matched action), w) := by
  simp only [turn, h]

/-- A symbol that leads to a terminal takes one turn to see it. -/
theorem Automaton.turn_of_action {w : Window} {action : ActionId}
    (hRow : a.state? s = some (.dispatch row)) (hPeek : w.peek? = some x)
    (hStep : a.step? s x = some target) (hAction : a.action? target = some action) :
    a.turn w s = .ok (.again target, w) := by
  simp only [step?, hRow] at hStep
  simp only [turn, hRow, hPeek, hStep, state?_of_action? hAction]

/-- **A scan by tables ends in time, and as the walk does.** -/
theorem Automaton.scan_turn (h : a.Walks atEnd lexeme s pending r) (w : Window)
    (hEnd : w.atEnd = atEnd) :
    Turn.scan a.turn (pending.length + 2) (w.reached lexeme pending) s =
      .ok (some r.result, w.reached r.lexeme r.pending) := by
  induction h with
  | terminal hState => exact Turn.scan_of_done (turn_of_terminal hState)
  | dry hDry hState =>
    apply Turn.scan_of_done
    simp only [turn, hState, Window.peek?_reached_nil_of_not_atEnd (hEnd.trans hDry)]
  | @finish lexeme _ _ _ _ hAtEnd hState hStep hAction =>
    have hPeek : (w.reached lexeme []).peek? = some .eof :=
      Window.peek?_reached_nil_of_atEnd (hEnd.trans hAtEnd)
    rw [Turn.scan_of_again (turn_of_action hState hPeek hStep hAction)]
    exact Turn.scan_of_done (turn_of_terminal (state?_of_action? hAction))
  | report hState hStep hAction =>
    rw [Turn.scan_of_again (turn_of_action hState Window.peek?_reached_cons hStep hAction)]
    exact Turn.scan_of_done (turn_of_terminal (state?_of_action? hAction))
  | @read lexeme s row b rest target r hState hStep hAction hWalk ih =>
    obtain ⟨row', hTarget⟩ := state?_of_action?_eq_none hWalk.lt_size hAction
    have hTurn : a.turn (w.reached lexeme (b :: rest)) s =
        .ok (.again target, w.reached (b :: lexeme) rest) := by
      simp only [step?, hState] at hStep
      simp only [turn, hState, Window.peek?_reached_cons, hStep, hTarget,
        Window.advance_reached_cons]
    rw [List.length_cons, Turn.scan_of_again hTurn]
    exact ih

/-- **A scan by the program of an automaton ends in time, and as the walk does.** -/
theorem Program.scan_turn (h : a.Walks atEnd lexeme s pending r) (w : Window)
    (hEnd : w.atEnd = atEnd) :
    Turn.scan (ofAutomaton a).turn (pending.length + 2) (w.reached lexeme pending) s =
      .ok (some r.result, w.reached r.lexeme r.pending) := by
  induction h with
  | terminal hState =>
    apply Turn.scan_of_done
    simp only [turn, unit?_ofAutomaton hState, unitOfState]
  | dry hDry hState =>
    apply Turn.scan_of_done
    simp only [turn, unit?_ofAutomaton hState, unitOfState,
      Window.peek?_reached_nil_of_not_atEnd (hEnd.trans hDry)]
  | finish hAtEnd hState hStep hAction =>
    apply Turn.scan_of_done
    simp only [turn, unit?_ofAutomaton hState, unitOfState, Choice.transfer?_ofFunction,
      Window.peek?_reached_nil_of_atEnd (hEnd.trans hAtEnd), resolve_of_action hStep hAction]
  | report hState hStep hAction =>
    apply Turn.scan_of_done
    simp only [turn, unit?_ofAutomaton hState, unitOfState, Choice.transfer?_ofFunction,
      Window.peek?_reached_cons, resolve_of_action hStep hAction]
  | @read lexeme s row b rest target r hState hStep hAction hWalk ih =>
    have hTurn : (ofAutomaton a).turn (w.reached lexeme (b :: rest)) s =
        .ok (.again target, w.reached (b :: lexeme) rest) := by
      simp only [turn, unit?_ofAutomaton hState, unitOfState, Choice.transfer?_ofFunction,
        Window.peek?_reached_cons, resolve_of_none hStep hAction, Window.advance_reached_cons]
    rw [List.length_cons, Turn.scan_of_again hTurn]
    exact ih

/-- **Every lookup of a compilation succeeds.** -/
theorem Program.resolve?_eq_ok (hRow : a.state? s = some (.dispatch row)) (x : Symbol) :
    resolve? a s row x = .ok (resolve a s x) := by
  obtain ⟨target, hTarget, -⟩ := Automaton.exists_target hRow x
  have hStep : a.step? s x = some target := by simp only [Automaton.step?, hRow, hTarget]
  cases hAction : a.action? target with
  | none => simp only [resolve?, hTarget, hAction, resolve_of_none hStep hAction]
  | some action => simp only [resolve?, hTarget, hAction, resolve_of_action hStep hAction]

/-- **Scanning makes no misstep and ends in time.** Of tables that pass the checks, every state goes
on every symbol to a state that exists, and compiling them looks up nothing that is not there. From
every state and on every window, both forms scan without a misstep: no state, target, unit or run
is missing, and no dry window is advanced. Two turns more than there are pending bytes end both
scans, with the same outcome and the same window. -/
theorem scan_safe (a : Automaton) (s : StateId) (hs : s.toNat < a.size) (w : Window) :
    (∀ x, ∃ target, a.step? s x = some target ∧ target.toNat < a.size) ∧
      (∀ q row, a.state? q = some (.dispatch row) → ∀ x,
        Program.resolve? a q row x = .ok (Program.resolve a q x)) ∧
      ∃ outcome w',
        Turn.scan a.turn (w.pending.length + 2) w s = .ok (some outcome, w') ∧
        a.run? w s = some (outcome, w') ∧
        Turn.scan (Program.ofAutomaton a).turn (w.pending.length + 2) w s =
          .ok (some outcome, w') ∧
        (Program.ofAutomaton a).run w s = (.ok outcome, w') := by
  obtain ⟨r, hWalks⟩ := Automaton.exists_walks hs w.atEnd w.lexeme w.pending
  exact ⟨fun x => Automaton.exists_step_of_lt hs x,
    fun q row hRow x => Program.resolve?_eq_ok hRow x, r.result, w.reached r.lexeme r.pending,
    Automaton.scan_turn hWalks w rfl, Automaton.run?_of_walks hWalks,
    Program.scan_turn hWalks w rfl, Program.run_ofAutomaton hWalks⟩

/-- The end of input behind a word is seen in a second turn, and reported in a third. -/
theorem scan_safe_words :
    (0 : StateId).toNat < Automaton.words.size ∧
      ∃ outcome w',
        Turn.scan Automaton.words.turn 3 (.ofBytes [97] true) 0 = .ok (some outcome, w') ∧
        Automaton.words.run? (.ofBytes [97] true) 0 = some (outcome, w') ∧
        Turn.scan (Program.ofAutomaton Automaton.words).turn 3 (.ofBytes [97] true) 0 =
          .ok (some outcome, w') ∧
        (Program.ofAutomaton Automaton.words).run (.ofBytes [97] true) 0 = (.ok outcome, w') ∧
        outcome = .matched 2 ∧ Turn.scan Automaton.words.turn 2 (.ofBytes [97] true) 0 =
          .ok (none, (Window.ofBytes [97] true).reached [97] []) := by
  obtain ⟨-, -, outcome, w', hTurns, hRun, hProgram, hProgramRun⟩ :=
    scan_safe Automaton.words 0 (by decide) (.ofBytes [97] true)
  refine ⟨by decide, outcome, w', hTurns, hRun, hProgram, hProgramRun, ?_, rfl⟩
  exact Option.some.inj (congrArg (Option.map Prod.fst) hRun).symm

end StreamLexer
