import StreamLexer.Program.RunTable

/-!
# Looking up runs of symbols

The runs of a function over all symbols stand in the order of their last symbols, the end of input
is the last of them, and bisection finds the first run that does not end before a symbol. That run
carries the value of the function, so that compiling a function into runs loses nothing.

## Main definitions

* `SymbolRun.Precedes`: the order of runs by their last symbols
* `RunTable.lookup?`: the transfer of a symbol, if bisection stops at a run

## Main results

* `SymbolRun.ofFunction_pairwise`: the runs of a function stand in order
* `SymbolRun.find?_ofFunction`: the first run that does not end before a symbol has its value
* `RunTable.place_eq_findIdx`: bisection finds the first run that does not end before a symbol
* `RunTable.lookup_ofFunction`, `RunTable.lookup?_ofFunction`: the runs of a function have the
  function's values
-/

namespace StreamLexer

namespace SymbolRun

/-- The order of runs by their last symbols. -/
def Precedes (r s : SymbolRun) : Prop := r.last.index < s.last.index

theorem endsBefore_iff {r : SymbolRun} {x : Symbol} :
    r.endsBefore x = true ↔ r.last.index < x.index := by
  rw [endsBefore, decide_eq_true_iff]

theorem Precedes.endsBefore {r s : SymbolRun} {x : Symbol} (h : r.Precedes s)
    (hs : s.endsBefore x = true) : r.endsBefore x = true :=
  endsBefore_iff.mpr (Nat.lt_trans h (endsBefore_iff.mp hs))

variable {f : Symbol → Transfer}

theorem ofFunction_cons (x : Symbol) (xs : List Symbol) :
    (∃ r rs, ofFunction f xs = r :: rs ∧ r.transfer = f x ∧ ofFunction f (x :: xs) = r :: rs) ∨
      ofFunction f (x :: xs) = ⟨x, f x⟩ :: ofFunction f xs := by
  rw [ofFunction]
  cases hRuns : ofFunction f xs with
  | nil => exact .inr rfl
  | cons r rs =>
    by_cases hSame : r.transfer = f x
    · exact .inl ⟨r, rs, rfl, hSame, by simp [hSame]⟩
    · exact .inr (by simp [hSame])

theorem ofFunction_last_sublist (xs : List Symbol) :
    ((ofFunction f xs).map last).Sublist xs := by
  induction xs with
  | nil => exact List.Sublist.slnil
  | cons x xs ih =>
    rcases ofFunction_cons (f := f) x xs with ⟨r, rs, hTail, -, hRuns⟩ | hRuns
    · rw [hRuns, ← hTail]
      exact ih.cons x
    · rw [hRuns]
      exact ih.cons_cons x

/-- The runs of a function stand in order. -/
theorem ofFunction_pairwise {xs : List Symbol} (h : xs.Pairwise fun x y => x.index < y.index) :
    (ofFunction f xs).Pairwise Precedes := by
  have hLasts := h.sublist (ofFunction_last_sublist (f := f) xs)
  rwa [List.pairwise_map] at hLasts

/-- **The first run that does not end before a symbol** has the function's value on it. -/
theorem find?_ofFunction {xs : List Symbol} (h : xs.Pairwise fun x y => x.index < y.index)
    {x : Symbol} (hx : x ∈ xs) :
    ∃ r, (ofFunction f xs).find? (fun r => !r.endsBefore x) = some r ∧ r.transfer = f x := by
  induction xs with
  | nil => cases hx
  | cons y ys ih =>
    obtain ⟨hy, hys⟩ := List.pairwise_cons.mp h
    rcases ofFunction_cons (f := f) y ys with ⟨r, rs, hTail, hSame, hRuns⟩ | hRuns
    · rw [hRuns]
      rcases List.mem_cons.mp hx with rfl | hx
      · -- swallowed by the next run
        have hLast : r.last ∈ ys :=
          (ofFunction_last_sublist ys).subset (by rw [hTail]; exact List.mem_cons_self ..)
        have hEnds : r.endsBefore x = false :=
          Bool.eq_false_iff.mpr fun hr => Nat.lt_asymm (endsBefore_iff.mp hr) (hy _ hLast)
        exact ⟨r, by simp [hEnds], hSame⟩
      · rw [← hTail]
        exact ih hys hx
    · rw [hRuns]
      rcases List.mem_cons.mp hx with rfl | hx
      · exact ⟨⟨x, f x⟩, by simp [endsBefore], rfl⟩
      · -- a run of its own
        have hEnds : (⟨y, f y⟩ : SymbolRun).endsBefore x = true := endsBefore_iff.mpr (hy x hx)
        rw [List.find?_cons_of_neg (by simp [hEnds])]
        exact ih hys hx

end SymbolRun

namespace RunTable

theorem toList_runs_ofFunction (f : Symbol → Transfer) :
    (ofFunction f).runs.toList = SymbolRun.ofFunction f Symbol.all := by
  simp only [ofFunction]

theorem runs_ofFunction_pairwise (f : Symbol → Transfer) :
    (ofFunction f).runs.toList.Pairwise SymbolRun.Precedes := by
  rw [toList_runs_ofFunction]
  exact SymbolRun.ofFunction_pairwise Symbol.all_pairwise

/-- Among runs in order, those that end before a symbol stand before the others. -/
theorem endsBefore_iff_lt_findIdx {runs : Array SymbolRun}
    (hOrder : runs.toList.Pairwise SymbolRun.Precedes) {x : Symbol} {i : Nat}
    (hi : i < runs.size) :
    runs[i].endsBefore x = true ↔ i < runs.toList.findIdx fun r => !r.endsBefore x := by
  constructor
  · intro hEnds
    refine List.lt_findIdx_of_not (by simpa using hi) fun j hj => ?_
    rcases Nat.lt_or_ge j i with hlt | hge
    · have hPrecedes := List.pairwise_iff_getElem.mp hOrder j i (by simp; omega)
        (by simpa using hi) hlt
      simpa using hPrecedes.endsBefore (by simpa using hEnds)
    · obtain rfl : j = i := by omega
      simpa using hEnds
  · intro hlt
    simpa using List.not_of_lt_findIdx hlt

/-- Bisection narrows down to the first run that does not end before a symbol. -/
theorem bisect_eq {runs : Array SymbolRun} (hOrder : runs.toList.Pairwise SymbolRun.Precedes)
    {x : Symbol} {k : Nat} (hk : k = runs.toList.findIdx fun r => !r.endsBefore x)
    (fuel low high : Nat) (hFuel : high - low ≤ fuel) (hLow : low ≤ k) (hHigh : k ≤ high)
    (hSize : high ≤ runs.size) : bisect runs x fuel low high = k := by
  induction fuel generalizing low high with
  | zero =>
    rw [bisect]
    omega
  | succ fuel ih =>
    rw [bisect]
    split
    · have hMiddle : (low + high) / 2 < runs.size := by omega
      have hEnds := endsBefore_iff_lt_findIdx hOrder (x := x) hMiddle
      rw [← hk] at hEnds
      simp only [Array.getElem?_eq_getElem hMiddle, Option.any_some, hEnds]
      split
      · exact ih _ _ (by omega) (by omega) hHigh hSize
      · exact ih _ _ (by omega) hLow (by omega) (Nat.le_of_lt hMiddle)
    · omega

/-- **Bisection finds the first run that does not end before a symbol.** -/
theorem place_eq_findIdx {t : RunTable} (hOrder : t.runs.toList.Pairwise SymbolRun.Precedes)
    {x : Symbol} (hRun : ∃ r ∈ t.runs.toList, r.endsBefore x = false) :
    t.place x = t.runs.toList.findIdx fun r => !r.endsBefore x := by
  have hLt : (t.runs.toList.findIdx fun r => !r.endsBefore x) < t.runs.size := by
    rw [← Array.length_toList]
    exact List.findIdx_lt_length_of_exists (by simpa using hRun)
  exact bisect_eq hOrder rfl _ _ _ (by omega) (Nat.zero_le _) (by omega) (by omega)

/-- The transfer of a symbol is that of the first run that does not end before it. -/
theorem lookup_eq_of_find? {t : RunTable} (hOrder : t.runs.toList.Pairwise SymbolRun.Precedes)
    {x : Symbol} {r : SymbolRun}
    (hFind : t.runs.toList.find? (fun r => !r.endsBefore x) = some r) :
    t.lookup x = r.transfer := by
  have hPlace := place_eq_findIdx hOrder (x := x)
    ⟨r, List.mem_of_find?_eq_some hFind, by simpa using List.find?_some hFind⟩
  have hAt : t.runs[t.place x]? = some r := by
    rw [hPlace, ← Array.getElem?_toList, ← List.find?_eq_getElem?_findIdx]
    exact hFind
  exact congrArg SymbolRun.transfer (Array.getElem_eq_iff.mpr hAt)

/-- **A search among all runs of a function stops at the run of the symbol**: the first one that
does not end before it, which has the function's value. -/
theorem exists_run_ofFunction (f : Symbol → Transfer) (x : Symbol) :
    ∃ r, (ofFunction f).runs.toList.find? (fun r => !r.endsBefore x) = some r ∧
      (ofFunction f).runs[bisect (ofFunction f).runs x (ofFunction f).runs.size 0
        (ofFunction f).runs.size]? = some r ∧ r.transfer = f x := by
  obtain ⟨r, hFind, hValue⟩ :=
    SymbolRun.find?_ofFunction (f := f) Symbol.all_pairwise (Symbol.mem_all x)
  rw [← toList_runs_ofFunction] at hFind
  have hPlace := bisect_eq (runs_ofFunction_pairwise f) (x := x) rfl (ofFunction f).runs.size 0
    (ofFunction f).runs.size (by omega) (Nat.zero_le _) List.findIdx_le_length (Nat.le_refl _)
  refine ⟨r, hFind, ?_, hValue⟩
  rw [hPlace, ← Array.getElem?_toList, ← List.find?_eq_getElem?_findIdx, hFind]

/-- **The runs of a function have the function's values.** -/
theorem lookup_ofFunction (f : Symbol → Transfer) (x : Symbol) :
    (ofFunction f).lookup x = f x := by
  obtain ⟨r, hFind, -, hValue⟩ := exists_run_ofFunction f x
  rw [← hValue]
  exact lookup_eq_of_find? (runs_ofFunction_pairwise f) hFind

/-- The transfer of the run that bisection over all runs finds; there is none behind the last run. -/
def lookup? (t : RunTable) (x : Symbol) : Option Transfer :=
  (t.runs[bisect t.runs x t.runs.size 0 t.runs.size]?).map SymbolRun.transfer

/-- **Among the runs of a function, bisection stops at a run.** -/
theorem lookup?_ofFunction (f : Symbol → Transfer) (x : Symbol) :
    (ofFunction f).lookup? x = some (f x) := by
  obtain ⟨r, -, hPlace, hValue⟩ := exists_run_ofFunction f x
  rw [lookup?, hPlace, Option.map_some, hValue]

end RunTable

end StreamLexer
