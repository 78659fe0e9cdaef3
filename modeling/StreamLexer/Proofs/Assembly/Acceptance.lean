import StreamLexer.Proofs.Assembly.Classes
import StreamLexer.Proofs.Automaton.WellFormed

/-!
# Which drafts make an automaton

The classes of finished tables are always in order: they are numbered without a gap, and only the
end of input has the last one. So the checks of the tables come down to the drafts. There must be
some, but not too many, no terminal may report the reserved action, and every symbol must lead a
state that reads to a drafted state, the end of input to a terminal.

## Main definitions

* `Assembly.Admissible`: what the checks ask of drafts

## Main results

* `Assembly.classCount_tablesOf`: there are as many classes as first symbols
* `Assembly.wellFormed_tablesOf_iff`: finished tables pass the checks if the drafts do
-/

namespace StreamLexer

theorem Symbol.exists_index (i : Fin 257) : ∃ x : Symbol, x.index = i := by
  by_cases hByte : i.val < 256
  · exact ⟨.byte (UInt8.ofNat i.val), Fin.ext (index_byte_ofNat hByte)⟩
  · exact ⟨.eof, Fin.ext (by rw [index_eof]; omega)⟩

theorem Tables.foldl_max_le {l : List UInt16} {m n : Nat} (hn : n ≤ m)
    (hl : ∀ c ∈ l, c.toNat ≤ m) : l.foldl (fun highest c => max highest c.toNat) n ≤ m := by
  induction l generalizing n with
  | nil => exact hn
  | cons d l ih =>
    apply ih
    · exact Nat.max_le.mpr ⟨hn, hl d List.mem_cons_self⟩
    · exact fun c hc => hl c (List.mem_cons_of_mem d hc)

theorem Tables.classCount_le {t : Tables} {m : Nat} (h : ∀ x, (t.classOf x).toNat ≤ m) :
    t.classCount ≤ m + 1 := by
  apply Nat.succ_le_succ
  apply foldl_max_le (Nat.zero_le m)
  intro c hc
  obtain ⟨i, hi, rfl⟩ := Vector.mem_iff_getElem.mp (Vector.mem_toList_iff.mp hc)
  obtain ⟨x, hx⟩ := Symbol.exists_index ⟨i, hi⟩
  have hClass : t.classOf x = t.classes[i] := by simp only [classOf, hx, Fin.getElem_fin]
  exact hClass ▸ h x

theorem SymbolSet.covers_eof_iff {symbols : SymbolSet} :
    symbols.covers .eof = true ↔ symbols = .eof ∨ symbols = .all := by
  constructor
  · intro h
    cases symbols with
    | eof => exact .inl rfl
    | all => exact .inr rfl
    | _ => cases h
  · rintro (rfl | rfl) <;> rfl

namespace Assembly

/-- What the checks of finished tables ask of the drafts. -/
structure Admissible (drafts : List Draft) : Prop where
  length_pos : 0 < drafts.length
  length_lt : drafts.length < UInt32.size
  action_ne : ∀ {i : Nat} {action}, drafts[i]? = some (.terminal action) → action ≠ reservedAction
  target_lt : ∀ {i : Nat} {edges x target}, drafts[i]? = some (.dispatch edges) →
    (Draft.dispatch edges).successor? (UInt32.ofNat i) x = some target →
      target.toNat < drafts.length
  eof_terminal : ∀ {i : Nat} {edges target}, drafts[i]? = some (.dispatch edges) →
    (Draft.dispatch edges).successor? (UInt32.ofNat i) .eof = some target →
      ∃ action, drafts[target.toNat]? = some (.terminal action)

variable {drafts : List Draft} {i : Nat}

/-- It is enough that every edge leads to a drafted state, covered by an earlier one or not. -/
theorem admissible_of_edges (hPos : 0 < drafts.length) (hLt : drafts.length < UInt32.size)
    (hAction : ∀ action, .terminal action ∈ drafts → action ≠ reservedAction)
    (hEdge : ∀ edges, .dispatch edges ∈ drafts → ∀ edge ∈ edges,
      edge.target.toNat < drafts.length ∧ (edge.symbols.covers .eof = true →
        ∃ action, drafts[edge.target.toNat]? = some (.terminal action))) :
    Admissible drafts := by
  have hTaken : ∀ {edges id x target}, (Draft.dispatch edges).successor? id x = some target →
      ∃ edge ∈ edges, edge.symbols.covers x = true ∧ edge.target = target := by
    intro edges id x target hSuccessor
    obtain ⟨edge, hFound, hTarget⟩ := Option.map_eq_some_iff.mp hSuccessor
    have hCovers := Array.find?_some hFound
    exact ⟨edge, Array.mem_of_find?_eq_some hFound, hCovers, hTarget⟩
  refine
    { length_pos := hPos
      length_lt := hLt
      action_ne := fun hDraft => hAction _ (List.mem_of_getElem? hDraft)
      target_lt := fun hDraft hSuccessor => ?_
      eof_terminal := fun hDraft hSuccessor => ?_ }
  · obtain ⟨edge, hMem, -, rfl⟩ := hTaken hSuccessor
    exact (hEdge _ (List.mem_of_getElem? hDraft) edge hMem).1
  · obtain ⟨edge, hMem, hCovers, rfl⟩ := hTaken hSuccessor
    exact (hEdge _ (List.mem_of_getElem? hDraft) edge hMem).2 hCovers

/-! ### The classes are in order -/

theorem toNat_classOf_tablesOf_byte_lt (b : UInt8) :
    ((tablesOf drafts).classOf (.byte b)).toNat < (firstBytes drafts).length := by
  obtain ⟨i, hByte⟩ := exists_byteOf b
  rw [← hByte, toNat_classOf_tablesOf_byteOf]
  exact placeOf_lt drafts i

/-- **There are as many classes as first symbols.** -/
theorem classCount_tablesOf : (tablesOf drafts).classCount = (representatives drafts).length := by
  have hEof := @toNat_classOf_tablesOf_eof drafts
  have hLower := (tablesOf drafts).classOf_lt_classCount .eof
  have hUpper : (tablesOf drafts).classCount ≤ (firstBytes drafts).length + 1 := by
    apply Tables.classCount_le
    intro x
    cases x with
    | eof => exact Nat.le_of_eq hEof
    | byte b => exact Nat.le_of_lt (toNat_classOf_tablesOf_byte_lt b)
  rw [representatives, List.length_append, List.length_map, List.length_singleton]
  omega

theorem classOf_byte_ne_eofClass (b : UInt8) :
    (tablesOf drafts).classOf (.byte b) ≠ (tablesOf drafts).eofClass := by
  intro hShared
  have hLt := @toNat_classOf_tablesOf_byte_lt drafts b
  rw [hShared, Tables.eofClass, toNat_classOf_tablesOf_eof] at hLt
  exact Nat.lt_irrefl _ hLt

/-! ### The states are those of the drafts -/

theorem exists_draft_of_row {row : Array StateId}
    (h : (tablesOf drafts).states[i]? = some (.dispatch row)) :
    ∃ edges, drafts[i]? = some (.dispatch edges) ∧
      finished drafts (UInt32.ofNat i) (.dispatch edges) = .dispatch row := by
  rw [state_tablesOf] at h
  obtain ⟨edges | action, hDraft, hRow⟩ := Option.map_eq_some_iff.mp h
  · exact ⟨edges, hDraft, hRow⟩
  · cases hRow

theorem admissible_of_wellFormed (h : (tablesOf drafts).WellFormed) : Admissible drafts := by
  have hTarget : ∀ {i : Nat} {edges x target}, drafts[i]? = some (.dispatch edges) →
      (Draft.dispatch edges).successor? (UInt32.ofNat i) x = some target →
        ∃ row, (tablesOf drafts).states[i]? = some (.dispatch row) ∧
          row[((tablesOf drafts).classOf x).toNat]? = some target := by
    intro i edges x target hDraft hSuccessor
    obtain ⟨row, hRow, hTargets⟩ := exists_row_tablesOf hDraft
    exact ⟨row, hRow, hTargets x target hSuccessor⟩
  refine
    { length_pos := size_tablesOf ▸ h.size_pos
      length_lt := size_tablesOf ▸ h.size_lt
      action_ne := fun hDraft => h.action_ne (terminal_tablesOf_iff.mpr hDraft)
      target_lt := fun hDraft hSuccessor => ?_
      eof_terminal := fun {i edges target} hDraft hSuccessor => ?_ }
  · obtain ⟨row, hRow, hPlace⟩ := hTarget hDraft hSuccessor
    exact size_tablesOf ▸ h.target_lt hRow _ (Array.mem_of_getElem? hPlace)
  · obtain ⟨row, hRow, hPlace⟩ := hTarget hDraft hSuccessor
    have hAction := h.eof_terminal hRow target hPlace
    rw [Tables.action?, Tables.state?] at hAction
    obtain ⟨action, hAction⟩ := Option.isSome_iff_exists.mp hAction
    obtain ⟨row | other, hState, hOther⟩ := Option.bind_eq_some_iff.mp hAction
    · cases hOther
    · exact ⟨other, terminal_tablesOf_iff.mp hState⟩

theorem wellFormed_of_admissible (hGap : gap? drafts = none) (h : Admissible drafts) :
    (tablesOf drafts).WellFormed := by
  refine
    { size_pos := size_tablesOf.symm ▸ h.length_pos
      size_lt := size_tablesOf.symm ▸ h.length_lt
      classCount_le := ?_
      byte_ne_eof := classOf_byte_ne_eofClass
      action_ne := fun hState => h.action_ne (terminal_tablesOf_iff.mp hState)
      row_size := fun hState => ?_
      target_lt := fun {id row} hState target hMem => ?_
      eof_terminal := fun {id row} hState target hPlace => ?_ }
  · rw [classCount_tablesOf, representatives, List.length_append, List.length_map,
      List.length_singleton]
    exact Nat.succ_le_succ (length_firstBytes_le drafts)
  · obtain ⟨edges, -, hRow⟩ := exists_draft_of_row hState
    rw [classCount_tablesOf]
    cases hRow
    simp
  · obtain ⟨edges, hDraft, hRow⟩ := exists_draft_of_row hState
    cases hRow
    obtain ⟨x, -, rfl⟩ := List.mem_map.mp (List.mem_toArray.mp hMem)
    obtain ⟨taken, hTaken⟩ := exists_successor_of_gap? hGap hDraft x
    rw [hTaken, size_tablesOf]
    exact h.target_lt hDraft hTaken
  · obtain ⟨edges, hDraft, -⟩ := exists_draft_of_row hState
    obtain ⟨taken, hTaken⟩ := exists_successor_of_gap? hGap hDraft .eof
    obtain ⟨row', hRow', hTargets⟩ := exists_row_tablesOf hDraft
    cases hState.symm.trans hRow'
    cases hPlace.symm.trans (hTargets .eof taken hTaken)
    obtain ⟨action, hAction⟩ := h.eof_terminal hDraft hTaken
    rw [Tables.action?, Tables.state?, terminal_tablesOf_iff.mpr hAction]
    rfl

/-- **Finished tables pass the checks if the drafts do.** -/
theorem wellFormed_tablesOf_iff (hGap : gap? drafts = none) :
    (tablesOf drafts).WellFormed ↔ Admissible drafts :=
  ⟨admissible_of_wellFormed, wellFormed_of_admissible hGap⟩

end Assembly

end StreamLexer
