import Mathlib.Data.List.Chain
import Mathlib.Data.List.Induction
import StreamLexer.Proofs.Program.Compilation

/-!
# Rows compiled into runs

The unit of a dispatch state has the runs of its row. They are built symbol by symbol: the last run
goes on as long as the symbols have its transfer, and a run of its own begins where the transfer
changes. So the runs are as few as there can be. Each symbol is in the one that a search among all
runs stops at, and this run carries what the tables say of the symbol.

A row that does the same on every symbol has one run, and its unit does not search. A program runs
alike whether it does or not.

## Main definitions

* `SymbolRun.extend`: the next symbol taken into the runs so far
* `SymbolRun.Merged`: what taking in a symbol keeps of the runs
* `Automaton.Directs`: what the tables say that a row does on a symbol
* `Program.withUnit`: a program with another unit in one place

## Main results

* `SymbolRun.ofFunction_eq_foldl`: the runs of a function are built symbol by symbol
* `SymbolRun.merged_foldl`: runs built so end at the last symbol, each before a change
* `RunTable.exists_run_ofFunction`: a search among all runs stops at the run of the symbol
* `Program.run_withUnit`: units that pick alike run alike
* `row_compiled`: what a row is compiled into
-/

namespace StreamLexer

/-! ### Runs built symbol by symbol -/

namespace SymbolRun

/-- Takes the next symbol into the runs so far. The last run goes on over a symbol with its
transfer; with any other symbol, a run of its own begins. -/
def extend (f : Symbol → Transfer) (runs : List SymbolRun) (x : Symbol) : List SymbolRun :=
  match runs.getLast? with
  | none => [⟨x, f x⟩]
  | some r => if r.transfer = f x then runs.dropLast ++ [⟨x, f x⟩] else runs ++ [⟨x, f x⟩]

variable {f : Symbol → Transfer} {runs : List SymbolRun} {r : SymbolRun} {x : Symbol}

theorem extend_concat_of_eq (h : r.transfer = f x) :
    extend f (runs ++ [r]) x = runs ++ [⟨x, f x⟩] := by
  simp only [extend, List.getLast?_concat, List.dropLast_concat, if_pos h]

theorem extend_concat_of_ne (h : r.transfer ≠ f x) :
    extend f (runs ++ [r]) x = runs ++ [r] ++ [⟨x, f x⟩] := by
  simp only [extend, List.getLast?_concat, if_neg h]

/-- Only the last of the runs so far is looked at. -/
theorem extend_cons (h : runs ≠ []) : extend f (r :: runs) x = r :: extend f runs x := by
  obtain ⟨front, last, rfl⟩ := (List.eq_nil_or_concat' runs).resolve_left h
  by_cases hSame : last.transfer = f x
  · rw [← List.cons_append, extend_concat_of_eq hSame, extend_concat_of_eq hSame, List.cons_append]
  · rw [← List.cons_append, extend_concat_of_ne hSame, extend_concat_of_ne hSame]
    rfl

/-- The first of the runs so far keeps its transfer. -/
theorem exists_extend_cons (r : SymbolRun) (runs : List SymbolRun) (x : Symbol) :
    ∃ r' runs', extend f (r :: runs) x = r' :: runs' ∧ r'.transfer = r.transfer := by
  cases runs with
  | nil =>
    by_cases hSame : r.transfer = f x
    · exact ⟨⟨x, f x⟩, [], by simp [extend, hSame], hSame.symm⟩
    · exact ⟨r, [⟨x, f x⟩], by simp [extend, hSame], rfl⟩
  | cons s runs => exact ⟨r, _, extend_cons (List.cons_ne_nil s runs), rfl⟩

theorem ofFunction_concat (xs : List Symbol) (x : Symbol) :
    ofFunction f (xs ++ [x]) = extend f (ofFunction f xs) x := by
  induction xs with
  | nil => rfl
  | cons y ys ih =>
    cases hRuns : ofFunction f ys with
    | nil =>
      rw [hRuns] at ih
      by_cases hSame : f y = f x
      · simp [ofFunction, ih, hRuns, extend, hSame]
      · simp [ofFunction, ih, hRuns, extend, hSame, Ne.symm hSame]
    | cons r rs =>
      rw [hRuns] at ih
      obtain ⟨r', rs', hExtend, hSame⟩ := exists_extend_cons (f := f) r rs x
      by_cases hJoins : r.transfer = f y
      · simp [ofFunction, ih, hRuns, hExtend, hSame, hJoins]
      · simp [ofFunction, ih, hRuns, hExtend, hSame, hJoins, extend_cons]

/-- **The runs of a function are built symbol by symbol.** -/
theorem ofFunction_eq_foldl (f : Symbol → Transfer) (xs : List Symbol) :
    ofFunction f xs = xs.foldl (extend f) [] := by
  induction xs using List.reverseRecOn with
  | nil => rfl
  | append_singleton xs x ih =>
    rw [ofFunction_concat, ih, List.foldl_append, List.foldl_cons, List.foldl_nil]

/-- The runs so far end at the last symbol so far, and no two neighbours have the same transfer. -/
structure Merged (xs : List Symbol) (runs : List SymbolRun) : Prop where
  last_eq : runs.getLast?.map last = xs.getLast?
  changes : (runs.map transfer).IsChain (· ≠ ·)

/-- **A symbol taken in** ends the last run, and begins it where the transfer changes. -/
theorem Merged.extend {xs : List Symbol} (h : Merged xs runs) (f : Symbol → Transfer)
    (x : Symbol) : Merged (xs ++ [x]) (extend f runs x) := by
  rcases List.eq_nil_or_concat' runs with rfl | ⟨front, r, rfl⟩
  · exact ⟨by simp [SymbolRun.extend], List.isChain_singleton _⟩
  · by_cases hSame : r.transfer = f x
    · rw [extend_concat_of_eq hSame]
      refine ⟨by simp, ?_⟩
      simpa [hSame] using h.changes
    · rw [extend_concat_of_ne hSame]
      refine ⟨by simp, ?_⟩
      rw [List.map_append, List.isChain_append]
      refine ⟨h.changes, List.isChain_singleton _, ?_⟩
      simpa using hSame

/-- **Runs built symbol by symbol** end at the last symbol, each of them before a change. -/
theorem merged_foldl (f : Symbol → Transfer) (xs : List Symbol) :
    Merged xs (xs.foldl (SymbolRun.extend f) []) := by
  induction xs using List.reverseRecOn with
  | nil => exact ⟨rfl, List.isChain_nil⟩
  | append_singleton xs x ih =>
    rw [List.foldl_append, List.foldl_cons, List.foldl_nil]
    exact ih.extend f x

end SymbolRun

namespace RunTable

/-- The runs of a function end at the end of input, each of them before a change. -/
theorem merged_ofFunction (f : Symbol → Transfer) :
    SymbolRun.Merged Symbol.all (ofFunction f).runs.toList := by
  rw [toList_runs_ofFunction, SymbolRun.ofFunction_eq_foldl]
  exact SymbolRun.merged_foldl f Symbol.all

theorem getLast?_runs_ofFunction (f : Symbol → Transfer) :
    (ofFunction f).runs.toList.getLast?.map SymbolRun.last = some .eof := by
  rw [(merged_ofFunction f).last_eq, Symbol.all, List.getLast?_concat]

/-- A table whose only run ends at the end of input has it for all symbols. -/
theorem exists_runs_eq {t : RunTable} (hSize : t.runs.size = 1)
    (hLast : t.runs.toList.getLast?.map SymbolRun.last = some .eof) :
    ∃ only, t.runs = #[⟨.eof, only⟩] := by
  obtain ⟨⟨last, only⟩, hRuns⟩ := Array.size_eq_one_iff.mp hSize
  rw [hRuns] at hLast
  obtain rfl : last = .eof := by simpa using hLast
  exact ⟨only, hRuns⟩

end RunTable

/-- The two forms of a choice of a function: the only run of its table, or a search among them. -/
theorem Choice.ofFunction_cases (f : Symbol → Transfer) :
    (∃ only, (RunTable.ofFunction f).runs = #[⟨.eof, only⟩] ∧ ofFunction f = .always only) ∨
      (RunTable.ofFunction f).runs.size ≠ 1 ∧ ofFunction f = .runs (RunTable.ofFunction f) := by
  have hLast := RunTable.getLast?_runs_ofFunction f
  rw [ofFunction]
  generalize RunTable.ofFunction f = table at hLast ⊢
  split
  · next hSize =>
    obtain ⟨only, hRuns⟩ := RunTable.exists_runs_eq hSize hLast
    refine .inl ⟨only, hRuns, ?_⟩
    simp only [hRuns, List.getElem_toArray, List.getElem_cons_zero]
  · next hSize => exact .inr ⟨hSize, rfl⟩

/-- What the tables say that a row does on a symbol: it reports the action of its target, if that is
a terminal, and goes on there otherwise. -/
inductive Automaton.Directs (a : Automaton) (row : Array StateId) (x : Symbol) : Transfer → Prop
  | report {target action} :
      row[(a.classOf x).toNat]? = some target → a.state? target = some (.terminal action) →
      Directs a row x (.report action)
  | goto {target row'} :
      row[(a.classOf x).toNat]? = some target → a.state? target = some (.dispatch row') →
      Directs a row x (.goto target)

namespace Program

/-- **A symbol is resolved as the tables say.** -/
theorem directs_resolve {a : Automaton} {s : StateId} {row : Array StateId}
    (hRow : a.state? s = some (.dispatch row)) (x : Symbol) :
    a.Directs row x (resolve a s x) := by
  obtain ⟨target, hTarget, hlt⟩ := Automaton.exists_target hRow x
  have hStep : a.step? s x = some target := by simp only [Automaton.step?, hRow, hTarget]
  cases hAction : a.action? target with
  | some action =>
    rw [resolve_of_action hStep hAction]
    exact .report hTarget (Automaton.state?_of_action? hAction)
  | none =>
    obtain ⟨row', hTargetRow⟩ := Automaton.state?_of_action?_eq_none hlt hAction
    rw [resolve_of_none hStep hAction]
    exact .goto hTarget hTargetRow

/-! ### Units that pick alike -/

/-- The program with another unit in the place of the unit `u`, if there is one. -/
def withUnit (p : Program) (u : UnitId) (unit : ScanUnit) : Program where
  units := p.units.setIfInBounds u.toNat unit
  maxAction? := p.maxAction?
  nonempty := by
    rw [Array.size_setIfInBounds]
    exact p.nonempty

section WithUnit

variable {p : Program} {u v : UnitId} {unit unit' : ScanUnit} {dry : UnitId} {choice choice' : Choice}

theorem size_withUnit : (p.withUnit u unit).size = p.size := Array.size_setIfInBounds

theorem unit?_withUnit (h : p.units[u.toNat]? = some unit) :
    (p.withUnit u unit').units[u.toNat]? = some unit' := by
  obtain ⟨hLt, -⟩ := Array.getElem?_eq_some_iff.mp h
  simp only [withUnit, Array.getElem?_setIfInBounds, hLt, if_true]

theorem unit?_withUnit_of_ne (h : v ≠ u) :
    (p.withUnit u unit).units[v.toNat]? = p.units[v.toNat]? := by
  have hNat : u.toNat ≠ v.toNat := fun hEq => h (UInt32.toNat_inj.mp hEq.symm)
  simp only [withUnit, Array.getElem?_setIfInBounds, hNat, if_false]

theorem settle_withUnit (hUnit : p.units[u.toNat]? = some (.read dry choice))
    (hPick : choice'.transfer .eof = choice.transfer .eof) (fuel : Nat) (v : UnitId) :
    (p.withUnit u (.read dry choice')).settle fuel v = p.settle fuel v := by
  induction fuel generalizing v with
  | zero => rfl
  | succ fuel ih =>
    by_cases hv : v = u
    · subst hv
      simp only [settle, unit?_withUnit hUnit, hUnit, hPick, ih]
    · simp only [settle, unit?_withUnit_of_ne hv, size_withUnit, ih]

theorem walk_withUnit (hUnit : p.units[u.toNat]? = some (.read dry choice))
    (hPick : ∀ x, choice'.transfer x = choice.transfer x) (atEnd : Bool)
    (lexeme pending : List UInt8) (v : UnitId) :
    (p.withUnit u (.read dry choice')).walk atEnd lexeme v pending =
      p.walk atEnd lexeme v pending := by
  induction pending generalizing lexeme v with
  | nil =>
    by_cases hv : v = u
    · subst hv
      simp only [walk, settle_withUnit hUnit (hPick .eof), size_withUnit, unit?_withUnit hUnit,
        hUnit]
    · simp only [walk, settle_withUnit hUnit (hPick .eof), size_withUnit,
        unit?_withUnit_of_ne hv]
  | cons b rest ih =>
    by_cases hv : v = u
    · subst hv
      simp only [walk, unit?_withUnit hUnit, hUnit, hPick, ih]
    · simp only [walk, unit?_withUnit_of_ne hv, size_withUnit, ih]

/-- **Units that pick alike run alike**, from every unit and on every window. -/
theorem run_withUnit (hUnit : p.units[u.toNat]? = some (.read dry choice))
    (hPick : ∀ x, choice'.transfer x = choice.transfer x) (w : Window) (v : UnitId) :
    (p.withUnit u (.read dry choice')).run w v = p.run w v := by
  simp only [run, walk_withUnit hUnit hPick]

end WithUnit

end Program

/-- **What a row is compiled into.** The unit of a dispatch state has a table of runs, built symbol
by symbol from what the state does on them. The runs are in the order of their last symbols, the
last of them ends at the end of input, and neighbours have different transfers. For every symbol, a
search among all runs stops at one, which is the first that does not end before the symbol and the
one that the unit looks up, and what it carries is what the tables say. The unit searches unless
there is one run only, which it then has for all symbols; with a search in its place, the program
runs alike on every window. -/
theorem row_compiled {a : Automaton} {s : StateId} {row : Array StateId}
    (hRow : a.state? s = some (.dispatch row)) :
    ∃ table choice, (Program.ofAutomaton a).units[s.toNat]? = some (.read s choice) ∧
      table.runs.toList = Symbol.all.foldl (SymbolRun.extend (Program.resolve a s)) [] ∧
      table.runs.toList.Pairwise SymbolRun.Precedes ∧
      table.runs.toList.getLast?.map SymbolRun.last = some .eof ∧
      (table.runs.toList.map SymbolRun.transfer).IsChain (· ≠ ·) ∧
      (∀ x, ∃ r, table.runs[RunTable.bisect table.runs x table.runs.size 0 table.runs.size]? =
          some r ∧ table.runs.toList.find? (fun r => !r.endsBefore x) = some r ∧
        table.lookup x = r.transfer ∧ a.Directs row x r.transfer) ∧
      ((∃ only, table.runs = #[⟨.eof, only⟩] ∧ choice = .always only) ∨
        table.runs.size ≠ 1 ∧ choice = .runs table) ∧
      ∀ w u, ((Program.ofAutomaton a).withUnit s (.read s (.runs table))).run w u =
        (Program.ofAutomaton a).run w u := by
  have hUnit := Program.unit?_ofAutomaton hRow
  refine ⟨.ofFunction (Program.resolve a s), .ofFunction (Program.resolve a s), hUnit, ?built,
    RunTable.runs_ofFunction_pairwise _, RunTable.getLast?_runs_ofFunction _,
    (RunTable.merged_ofFunction _).changes, ?found, Choice.ofFunction_cases _, ?alike⟩
  case built => rw [RunTable.toList_runs_ofFunction, SymbolRun.ofFunction_eq_foldl]
  case found =>
    intro x
    obtain ⟨r, hFind, hPlace, hValue⟩ := RunTable.exists_run_ofFunction (Program.resolve a s) x
    refine ⟨r, hPlace, hFind, (RunTable.lookup_ofFunction _ x).trans hValue.symm, ?_⟩
    rw [hValue]
    exact Program.directs_resolve hRow x
  case alike =>
    intro w u
    refine Program.run_withUnit hUnit (fun x => ?_) w u
    rw [Choice.transfer_ofFunction, Choice.transfer, RunTable.lookup_ofFunction]

/-- The unit of blanks searches: it reads on at a blank, and reports at the end of input. -/
theorem row_compiled_blanks :
    Automaton.words.state? 1 = some (.dispatch #[1, 4, 4]) ∧
      ∃ table, (Program.ofAutomaton Automaton.words).units[(1 : StateId).toNat]? =
          some (.read 1 (.runs table)) ∧
        table.lookup (.byte 32) = .goto 1 ∧ table.lookup .eof = .report 1 := by
  have hRow : Automaton.words.state? 1 = some (.dispatch #[1, 4, 4]) := rfl
  obtain ⟨table, choice, hUnit, -, -, -, -, hFound, hForms, -⟩ := row_compiled hRow
  have hBlank : table.lookup (.byte 32) = .goto 1 := by
    obtain ⟨r, -, -, hLookup, hDirects⟩ := hFound (.byte 32)
    rw [← hLookup] at hDirects
    generalize table.lookup (.byte 32) = transfer at hDirects ⊢
    cases hDirects with
    | report hTarget hState =>
      cases hTarget
      cases hState
    | goto hTarget hState =>
      cases hTarget
      rfl
  have hEof : table.lookup .eof = .report 1 := by
    obtain ⟨r, -, -, hLookup, hDirects⟩ := hFound .eof
    rw [← hLookup] at hDirects
    generalize table.lookup .eof = transfer at hDirects ⊢
    cases hDirects with
    | report hTarget hState =>
      cases hTarget
      cases hState
      rfl
    | goto hTarget hState =>
      cases hTarget
      cases hState
  refine ⟨hRow, table, ?_, hBlank, hEof⟩
  rcases hForms with ⟨only, hOnly, -⟩ | ⟨-, rfl⟩
  · have hSame : ∀ x, table.lookup x = only := by
      intro x
      obtain ⟨r, hAt, -, hLookup, -⟩ := hFound x
      have hMem := Array.mem_of_getElem? hAt
      rw [hOnly, Array.mem_singleton] at hMem
      rw [hLookup, hMem]
    rw [hSame] at hBlank hEof
    cases hBlank.symm.trans hEof
  · exact hUnit

end StreamLexer
