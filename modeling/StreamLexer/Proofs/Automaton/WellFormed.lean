import Mathlib.Tactic.SplitIfs
import StreamLexer.Automaton.Walk

/-!
# Well-formed tables

Tables have no defect exactly if they are well formed: there are states, their numbers fit, classes
are dense, no byte is taken for the end of input, and every row has one existing target per class,
that of the end of input a terminal. In an automaton every state therefore has a successor on every
symbol, and the end of input ends every lexeme.

## Main definitions

* `Tables.WellFormed`: what the checks establish

## Main results

* `Tables.defect?_eq_none_iff`: the checks accept exactly the well-formed tables
* `Automaton.exists_target`: a dispatch state has an existing target on every symbol
* `Automaton.exists_eof_action`: the end of input leads a dispatch state to a terminal
-/

namespace StreamLexer

namespace Tables

/-- What the checks of tables establish. -/
structure WellFormed (t : Tables) : Prop where
  size_pos : 0 < t.states.size
  size_lt : t.states.size < UInt32.size
  classCount_le : t.classCount ≤ 257
  byte_ne_eof : ∀ b, t.classOf (.byte b) ≠ t.eofClass
  action_ne : ∀ {id : Nat} {action}, t.states[id]? = some (.terminal action) →
    action ≠ reservedAction
  row_size : ∀ {id : Nat} {row}, t.states[id]? = some (.dispatch row) → row.size = t.classCount
  target_lt : ∀ {id : Nat} {row}, t.states[id]? = some (.dispatch row) →
    ∀ target ∈ row, target.toNat < t.states.size
  eof_terminal : ∀ {id : Nat} {row}, t.states[id]? = some (.dispatch row) →
    ∀ target, row[t.eofClass.toNat]? = some target → (t.action? target).isSome

theorem sharedEofByte?_eq_none_iff {t : Tables} :
    t.sharedEofByte? = none ↔ ∀ b, t.classOf (.byte b) ≠ t.eofClass := by
  simp only [sharedEofByte?, List.find?_eq_none, decide_eq_true_eq]
  refine ⟨fun h b => h b ?_, fun h b _ => h b⟩
  exact List.mem_map.mpr ⟨b.toNat, List.mem_range.mpr b.toNat_lt, UInt8.ofNat_toNat⟩

/-- No byte is taken for the end of input if the class of the latter, which comes last, is new. -/
theorem sharedEofByte?_eq_none_of_notMem {t : Tables} {classes : List UInt16} {c : UInt16}
    (hClasses : t.classes.toList = classes ++ [c]) (hNew : c ∉ classes) :
    t.sharedEofByte? = none := by
  have hLength : classes.length = 256 := by
    have hAll := congrArg List.length hClasses
    simpa using hAll.symm
  have hClass : ∀ x : Symbol, (classes ++ [c])[x.index.val]? = some (t.classOf x) := by
    intro x
    rw [← hClasses, classOf, Vector.getElem?_toList]
    exact Vector.getElem?_eq_getElem x.index.isLt
  have hEof : t.eofClass = c := by
    have hLast := hClass .eof
    rw [Symbol.index_eof, List.getElem?_append_right (by omega), hLength] at hLast
    exact (Option.some.inj hLast).symm
  rw [sharedEofByte?_eq_none_iff, hEof]
  intro b hShared
  have hByte := hClass (.byte b)
  rw [Symbol.index_byte, hShared, List.getElem?_append_left (by have := b.toNat_lt; omega)] at hByte
  exact hNew (List.mem_of_getElem? hByte)

theorem missingTarget?_eq_none_iff {t : Tables} {row : Array StateId} :
    t.missingTarget? row = none ↔ ∀ target ∈ row, target.toNat < t.states.size := by
  simp only [missingTarget?, List.find?_eq_none, decide_eq_true_eq, Nat.not_le]
  constructor
  · intro h target hmem
    obtain ⟨i, hi, rfl⟩ := Array.mem_iff_getElem.mp hmem
    exact h (row[i], i) (List.mem_zipIdx_iff_getElem?.mpr (by simp [hi]))
  · rintro h ⟨target, i⟩ hmem
    have hTarget : target ∈ row.toList :=
      List.mem_of_getElem? (List.mem_zipIdx_iff_getElem?.mp hmem)
    exact h target (Array.mem_toList_iff.mp hTarget)

theorem eofDispatch?_eq_none_iff {t : Tables} {row : Array StateId} :
    t.eofDispatch? row = none ↔
      ∀ target, row[t.eofClass.toNat]? = some target → (t.action? target).isSome := by
  simp only [eofDispatch?, Option.filter_eq_none_iff, Option.isNone_iff_eq_none,
    Option.isSome_iff_ne_none, ne_eq]

theorem stateDefect?_terminal_eq_none_iff {t : Tables} {classes id : Nat} {action : ActionId} :
    t.stateDefect? classes id (.terminal action) = none ↔ action ≠ reservedAction := by
  simp [stateDefect?]

theorem stateDefect?_dispatch_eq_none_iff {t : Tables} {classes id : Nat} {row : Array StateId} :
    t.stateDefect? classes id (.dispatch row) = none ↔
      row.size = classes ∧ (∀ target ∈ row, target.toNat < t.states.size) ∧
        ∀ target, row[t.eofClass.toNat]? = some target → (t.action? target).isSome := by
  rw [← missingTarget?_eq_none_iff, ← eofDispatch?_eq_none_iff]
  by_cases hSize : row.size = classes
  · cases hMissing : t.missingTarget? row <;> simp [stateDefect?, hSize, hMissing]
  · simp [stateDefect?, hSize]

theorem statesDefect?_eq_none_iff {t : Tables} :
    t.statesDefect? = none ↔
      ∀ id state, t.states[id]? = some state → t.stateDefect? t.classCount id state = none := by
  simp only [statesDefect?, List.findSome?_eq_none_iff]
  constructor
  · intro h id state hState
    exact h (state, id) (List.mem_zipIdx_iff_getElem?.mpr (by simpa using hState))
  · rintro h ⟨state, id⟩ hmem
    exact h id state (by simpa using List.mem_zipIdx_iff_getElem?.mp hmem)

/-- **The checks accept exactly the well-formed tables.** -/
theorem defect?_eq_none_iff {t : Tables} : t.defect? = none ↔ t.WellFormed := by
  unfold defect?
  constructor
  · intro h
    split_ifs at h with hNone hMany hSparse
    split at h
    · cases h
    · next hShared =>
      rw [statesDefect?_eq_none_iff] at h
      exact
        { size_pos := Nat.pos_of_ne_zero hNone
          size_lt := Nat.lt_of_not_le hMany
          classCount_le := Nat.le_of_not_lt hSparse
          byte_ne_eof := sharedEofByte?_eq_none_iff.mp hShared
          action_ne := fun hState => stateDefect?_terminal_eq_none_iff.mp (h _ _ hState)
          row_size := fun hState => (stateDefect?_dispatch_eq_none_iff.mp (h _ _ hState)).1
          target_lt := fun hState => (stateDefect?_dispatch_eq_none_iff.mp (h _ _ hState)).2.1
          eof_terminal := fun hState =>
            (stateDefect?_dispatch_eq_none_iff.mp (h _ _ hState)).2.2 }
  · intro h
    have hStates : t.statesDefect? = none := by
      rw [statesDefect?_eq_none_iff]
      rintro id (row | action) hState
      · exact stateDefect?_dispatch_eq_none_iff.mpr
          ⟨h.row_size hState, h.target_lt hState, h.eof_terminal hState⟩
      · exact stateDefect?_terminal_eq_none_iff.mpr (h.action_ne hState)
    rw [if_neg (Nat.ne_of_gt h.size_pos), if_neg (Nat.not_le_of_lt h.size_lt),
      if_neg (Nat.not_lt_of_le h.classCount_le), sharedEofByte?_eq_none_iff.mpr h.byte_ne_eof]
    exact hStates

theorem le_foldl_max (l : List UInt16) (n : Nat) :
    n ≤ l.foldl (fun highest c => max highest c.toNat) n ∧
      ∀ c ∈ l, c.toNat ≤ l.foldl (fun highest c => max highest c.toNat) n := by
  induction l generalizing n with
  | nil => simp
  | cons d l ih =>
    obtain ⟨hStart, hMem⟩ := ih (max n d.toNat)
    refine ⟨Nat.le_trans (Nat.le_max_left _ _) hStart, fun c hc => ?_⟩
    rcases List.mem_cons.mp hc with rfl | hc
    · exact Nat.le_trans (Nat.le_max_right _ _) hStart
    · exact hMem c hc

theorem classOf_lt_classCount (t : Tables) (x : Symbol) : (t.classOf x).toNat < t.classCount := by
  have hMem : t.classOf x ∈ t.classes.toList := by simp [classOf]
  exact Nat.lt_succ_of_le ((le_foldl_max _ 0).2 _ hMem)

end Tables

namespace Automaton

theorem wellFormed (a : Automaton) : a.toTables.WellFormed := Tables.defect?_eq_none_iff.mp a.sound

/-- A state exists exactly if its number is below the number of states. -/
theorem exists_state_iff {a : Automaton} {s : StateId} :
    (∃ state, a.state? s = some state) ↔ s.toNat < a.size := by
  rw [← Option.isSome_iff_exists, Tables.state?, isSome_getElem?, size]

theorem lt_size_of_state? {a : Automaton} {s : StateId} {state : State}
    (h : a.state? s = some state) : s.toNat < a.size :=
  exists_state_iff.mp ⟨state, h⟩

theorem state?_of_action? {a : Automaton} {s : StateId} {action : ActionId}
    (h : a.action? s = some action) : a.state? s = some (.terminal action) := by
  obtain ⟨row | found, hState, hAction⟩ := Option.bind_eq_some_iff.mp h
  · cases hAction
  · obtain rfl := Option.some.inj hAction
    exact hState

/-- A dispatch state has an existing target on every symbol. -/
theorem exists_target {a : Automaton} {s : StateId} {row : Array StateId}
    (h : a.state? s = some (.dispatch row)) (x : Symbol) :
    ∃ target, row[(a.classOf x).toNat]? = some target ∧ target.toNat < a.size := by
  have hClass : (a.classOf x).toNat < row.size := by
    rw [a.wellFormed.row_size h]
    exact a.classOf_lt_classCount x
  exact ⟨row[(a.classOf x).toNat], Array.getElem?_eq_getElem hClass,
    a.wellFormed.target_lt h _ (Array.getElem_mem hClass)⟩

/-- The end of input leads a dispatch state to a terminal. -/
theorem exists_eof_action {a : Automaton} {s : StateId} {row : Array StateId}
    (h : a.state? s = some (.dispatch row)) :
    ∃ target action, a.step? s .eof = some target ∧ a.action? target = some action := by
  obtain ⟨target, hTarget, -⟩ := exists_target h .eof
  obtain ⟨action, hAction⟩ := Option.isSome_iff_exists.mp (a.wellFormed.eof_terminal h _ hTarget)
  exact ⟨target, action, by simp only [step?, h, hTarget], hAction⟩

/-- A state that reports no action reads on. -/
theorem state?_of_action?_eq_none {a : Automaton} {s : StateId} (hs : s.toNat < a.size)
    (h : a.action? s = none) : ∃ row, a.state? s = some (.dispatch row) := by
  obtain ⟨row | action, hState⟩ := exists_state_iff.mpr hs
  · exact ⟨row, hState⟩
  · simp [Tables.action?, hState, State.action?] at h

/-- Blanks are in one class and the other bytes in another. Blanks and words are read up to where
they end, and the end of input alone is a lexeme. -/
def wordTables : Tables where
  classes := ⟨(List.replicate 32 1 ++ 0 :: List.replicate 223 1 ++ [2] : List UInt16).toArray,
    by decide +kernel⟩
  states := #[.dispatch #[1, 2, 3], .dispatch #[1, 4, 4], .dispatch #[5, 2, 5], .terminal 0,
    .terminal 1, .terminal 2]

theorem wordTables_defect? : wordTables.defect? = none := by
  have hShared : wordTables.sharedEofByte? = none :=
    Tables.sharedEofByte?_eq_none_of_notMem rfl (by decide +kernel)
  rw [Tables.defect?, if_neg (by decide), if_neg (by decide +kernel), if_neg (by decide +kernel),
    hShared]
  decide +kernel

/-- The automaton of words and of the blanks between them. -/
def words : Automaton := ⟨wordTables, wordTables_defect?⟩

end Automaton

end StreamLexer
