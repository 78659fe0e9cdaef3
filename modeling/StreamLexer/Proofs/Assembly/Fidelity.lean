import StreamLexer.Proofs.Assembly.Acceptance
import StreamLexer.Proofs.Assembly.Construction

/-!
# A finished automaton does what its construction says

If an assembly can be finished, its drafts leave no gap, the tables are those of the drafts with the
catch-all worked in, and no state number is too high. So every drafted state is found at its number,
and goes on a symbol along the first edge that covered it, or else to where the catch-all stands in.

## Main definitions

* `Assembly.Fulfils`: an automaton does what the steps of a construction say

## Main results

* `Assembly.build_eq_ok_iff`: what can be finished, and to which automaton
* `Assembly.exists_build_iff`: an assembly can be finished if its drafts pass the checks
* `Assembly.exists_step_of_build`: a finished state goes where its draft goes
* `Assembly.exists_step_of_steps`: where a state goes that was drafted to read
* `Assembly.fulfils_of_build`: a finished automaton does what its construction says
-/

namespace StreamLexer.Assembly

/-- An automaton does what the steps of a construction say. -/
structure Fulfils (steps : List Step) (a : Automaton) : Prop where
  /-- A state is numbered by the states drafted before it, and so are the two of the catch-all. -/
  toNat_nextId : ∀ {before after}, steps = before ++ after →
    (ofSteps before).nextId.toNat = drafted before
  /-- There are the drafted states and, with a catch-all, two more. -/
  size_eq : a.size = drafted steps + if (lastCatchAll? steps).isSome then 2 else 0
  terminal : ∀ {before after action}, steps = before ++ .terminal action :: after →
    a.state? (ofSteps before).nextId = some (.terminal action)
  dispatch : ∀ {before after}, steps = before ++ .dispatch :: after →
    ∃ row, a.state? (ofSteps before).nextId = some (.dispatch row)
  /-- The first step that covers a symbol says where a state goes on it. -/
  covered : ∀ {before after x target}, steps = before ++ .dispatch :: after →
    after.findSome? (Step.target? (ofSteps before).nextId x) = some target →
      a.step? (ofSteps before).nextId x = some target
  /-- Without such a step there is a catch-all, which takes a byte and the end of input apart. -/
  uncovered : ∀ {before after x}, steps = before ++ .dispatch :: after →
    after.findSome? (Step.target? (ofSteps before).nextId x) = none →
      (lastCatchAll? steps).isSome = true ∧ a.step? (ofSteps before).nextId x =
        some (if x = .eof then (ofSteps steps).nextId + 1 else (ofSteps steps).nextId)
  swallow : ∀ {action}, lastCatchAll? steps = some action →
    (∃ row, a.state? (ofSteps steps).nextId = some (.dispatch row)) ∧
      ∀ x, a.step? (ofSteps steps).nextId x = some ((ofSteps steps).nextId + 1)
  fallback : ∀ {action}, lastCatchAll? steps = some action →
    ((ofSteps steps).nextId + 1).toNat = drafted steps + 1 ∧
      a.state? ((ofSteps steps).nextId + 1) = some (.terminal action)

variable {b : Assembly} {a : Automaton} {s : StateId} {edges : Array Edge} {action : ActionId}

theorem tables_eq_ok_iff {t : Tables} :
    b.tables = .ok t ↔ b.fault? = none ∧ gap? b.completed.toList = none ∧
      t = tablesOf b.completed.toList := by
  rw [tables]
  cases b.fault? with
  | some cause => simp
  | none =>
    cases hGap : gap? b.completed.toList with
    | some gap => simp [hGap]
    | none => simp [hGap, eq_comm]

/-- **What can be finished**: an assembly without a fault or a gap, to the tables of its drafts. -/
theorem build_eq_ok_iff :
    b.build = .ok a ↔ b.fault? = none ∧ gap? b.completed.toList = none ∧
      a.toTables = tablesOf b.completed.toList := by
  rw [← tables_eq_ok_iff, build]
  constructor
  · intro h
    cases hTables : b.tables with
    | error cause =>
      rw [hTables] at h
      cases h
    | ok t =>
      rw [hTables] at h
      rw [Automaton.ofTables_eq_ok_iff.mp h]
  · intro h
    rw [h]
    exact Automaton.ofTables_eq_ok_iff.mpr rfl

/-- **An assembly can be finished** if it has no fault and no gap, and its drafts pass the checks. -/
theorem exists_build_iff : (∃ a, b.build = .ok a) ↔
    b.fault? = none ∧ gap? b.completed.toList = none ∧ Admissible b.completed.toList := by
  constructor
  · rintro ⟨a, hBuild⟩
    obtain ⟨hFault, hGap, hTables⟩ := build_eq_ok_iff.mp hBuild
    have hWellFormed := a.wellFormed
    rw [hTables] at hWellFormed
    exact ⟨hFault, hGap, (wellFormed_tablesOf_iff hGap).mp hWellFormed⟩
  · rintro ⟨hFault, hGap, hAdmissible⟩
    have hSound := Tables.defect?_eq_none_iff.mpr ((wellFormed_tablesOf_iff hGap).mpr hAdmissible)
    exact ⟨⟨_, hSound⟩, build_eq_ok_iff.mpr ⟨hFault, hGap, rfl⟩⟩

theorem size_of_build (h : b.build = .ok a) : a.size = b.completed.size := by
  obtain ⟨-, -, hTables⟩ := build_eq_ok_iff.mp h
  rw [Automaton.size, hTables, size_tablesOf, Array.length_toList]

theorem terminal_of_build (h : b.build = .ok a)
    (hDraft : b.completed[s.toNat]? = some (.terminal action)) :
    a.state? s = some (.terminal action) := by
  obtain ⟨-, -, hTables⟩ := build_eq_ok_iff.mp h
  rw [Tables.state?, hTables]
  exact terminal_tablesOf_iff.mpr (by simpa using hDraft)

/-- **A finished state goes where its draft goes.** -/
theorem exists_step_of_build (h : b.build = .ok a)
    (hDraft : b.completed[s.toNat]? = some (.dispatch edges)) :
    (∃ row, a.state? s = some (.dispatch row)) ∧
      ∀ x, ∃ target, (Draft.dispatch edges).successor? s x = some target ∧
        a.step? s x = some target := by
  obtain ⟨-, hGap, hTables⟩ := build_eq_ok_iff.mp h
  have hList : b.completed.toList[s.toNat]? = some (.dispatch edges) := by simpa using hDraft
  obtain ⟨row, hRow, hTargets⟩ := exists_row_tablesOf hList
  rw [← hTables] at hRow hTargets
  refine ⟨⟨row, hRow⟩, fun x => ?_⟩
  obtain ⟨target, hTarget⟩ := exists_successor_of_gap? hGap hList x
  have hStep := hTargets x target hTarget
  rw [UInt32.ofNat_toNat] at hTarget
  refine ⟨target, hTarget, ?_⟩
  have hState : a.state? s = some (.dispatch row) := hRow
  simp only [Automaton.step?, hState, hStep]

/-- No state of a construction that can be finished has a number that is too high. -/
theorem toNat_ofNat_of_build (h : b.build = .ok a) {n : Nat} (hn : n ≤ b.drafts.size) :
    (UInt32.ofNat n).toNat = n := by
  have hSize : b.completed.size < UInt32.size := size_of_build h ▸ a.wellFormed.size_lt
  rw [size_completed] at hSize
  exact UInt32.toNat_ofNat_of_lt' (by omega)

section OfSteps

variable {steps before after : List Step}

theorem toNat_nextId_of_build (h : (ofSteps (before ++ after)).build = .ok a) :
    (ofSteps before).nextId.toNat = drafted before := by
  rw [nextId, size_ofSteps]
  apply toNat_ofNat_of_build h
  rw [size_ofSteps, drafted, drafted, List.countP_append]
  exact Nat.le_add_right _ _

theorem toNat_nextId_of_build_self (h : (ofSteps steps).build = .ok a) :
    (ofSteps steps).nextId.toNat = drafted steps := by
  apply @toNat_nextId_of_build _ _ []
  rw [List.append_nil]
  exact h

/-- The terminal of the catch-all is numbered behind the state that swallows a byte. -/
theorem toNat_fallback_of_build (h : (ofSteps steps).build = .ok a)
    (hAction : lastCatchAll? steps = some action) :
    ((ofSteps steps).nextId + 1).toNat = drafted steps + 1 := by
  have hLt : (ofSteps steps).completed.size < UInt32.size := size_of_build h ▸ a.wellFormed.size_lt
  rw [size_completed, size_ofSteps, catchAll?_ofSteps, hAction] at hLt
  have hTwo : drafted steps + 2 < 2 ^ 32 := hLt
  rw [UInt32.toNat_add, toNat_nextId_of_build_self h]
  exact Nat.mod_eq_of_lt (Nat.lt_of_succ_lt hTwo)

/-- **A state that was drafted to read** goes along the first edge that covers a symbol, and else
where the catch-all stands in. -/
theorem exists_step_of_steps (h : (ofSteps (before ++ .dispatch :: after)).build = .ok a) :
    (∃ row, a.state? (ofSteps before).nextId = some (.dispatch row)) ∧
      ∀ x, ∃ target, a.step? (ofSteps before).nextId x = some target ∧
        (after.findSome? (Step.target? (ofSteps before).nextId x)).or
          ((ofSteps (before ++ .dispatch :: after)).standIn? x) = some target := by
  obtain ⟨edges, hDraft, hSuccessor⟩ :=
    exists_dispatch_of_steps before after (toNat_nextId_of_build h)
  obtain ⟨edges', hCompleted, hStandIn⟩ := exists_completed_dispatch hDraft
  obtain ⟨hState, hStep⟩ := exists_step_of_build h hCompleted
  refine ⟨hState, fun x => ?_⟩
  obtain ⟨target, hTarget, hTaken⟩ := hStep x
  rw [hStandIn, hSuccessor] at hTarget
  exact ⟨target, hTaken, hTarget⟩

/-- The state behind the drafted ones swallows any symbol. -/
theorem swallow_of_build (h : (ofSteps steps).build = .ok a)
    (hAction : lastCatchAll? steps = some action) :
    (∃ row, a.state? (ofSteps steps).nextId = some (.dispatch row)) ∧
      ∀ x, a.step? (ofSteps steps).nextId x = some ((ofSteps steps).nextId + 1) := by
  have hCompleted : (ofSteps steps).completed[(ofSteps steps).nextId.toNat]? =
      some (.dispatch #[⟨.all, (ofSteps steps).nextId + 1⟩]) := by
    rw [toNat_nextId_of_build_self h, ← size_ofSteps]
    exact completed_swallow ((catchAll?_ofSteps steps).trans hAction)
  obtain ⟨hState, hStep⟩ := exists_step_of_build h hCompleted
  refine ⟨hState, fun x => ?_⟩
  obtain ⟨target, hTarget, hTaken⟩ := hStep x
  rw [hTaken, ← hTarget]
  cases x <;> rfl

end OfSteps

/-- **A finished automaton does what its construction says.** -/
theorem fulfils_of_build {steps : List Step} (h : (ofSteps steps).build = .ok a) :
    Fulfils steps a := by
  refine
    { toNat_nextId := fun hSteps => toNat_nextId_of_build (hSteps ▸ h)
      size_eq := ?_
      terminal := fun {before after action} hSteps => ?_
      dispatch := fun hSteps => (exists_step_of_steps (hSteps ▸ h)).1
      covered := fun {before after x target} hSteps hFirst => ?_
      uncovered := fun {before after x} hSteps hNone => ?_
      swallow := fun hAction => swallow_of_build h hAction
      fallback := fun {action} hAction => ⟨toNat_fallback_of_build h hAction, ?_⟩ }
  · rw [size_of_build h, size_completed, size_ofSteps, catchAll?_ofSteps]
  · subst hSteps
    apply terminal_of_build h
    apply completed_terminal
    rw [toNat_nextId_of_build h]
    exact terminal_of_steps before after
  · subst hSteps
    obtain ⟨taken, hTaken, hTarget⟩ := (exists_step_of_steps h).2 x
    rw [hFirst, Option.some_or] at hTarget
    exact hTaken.trans hTarget.symm
  · subst hSteps
    obtain ⟨taken, hTaken, hTarget⟩ := (exists_step_of_steps h).2 x
    rw [hNone, Option.none_or, standIn?, catchAll?_ofSteps] at hTarget
    obtain ⟨action, hAction, rfl⟩ := Option.map_eq_some_iff.mp hTarget
    exact ⟨by rw [hAction]; rfl, hTaken⟩
  · apply terminal_of_build h
    rw [toNat_fallback_of_build h hAction, ← size_ofSteps]
    exact completed_fallback ((catchAll?_ofSteps steps).trans hAction)

/-- Letters to `1`, but for an `a` that is covered before; the rest to the catch-all. -/
def overlapping : List Step :=
  [.dispatch, .terminal 7, .edge 0 (.bytes [97]) 0, .edge 0 (.range 97 122) 1, .catchAll 9]

theorem fulfils_of_build_overlapping :
    ∃ a, (ofSteps overlapping).build = .ok a ∧ Fulfils overlapping a ∧
      a.step? 0 (.byte 97) = some 0 ∧ a.step? 0 (.byte 98) = some 1 ∧
      a.step? 0 (.byte 48) = some 2 ∧ a.step? 0 .eof = some 3 ∧ a.state? 3 = some (.terminal 9) := by
  have hAdmissible : Admissible (ofSteps overlapping).completed.toList := by
    have hDrafts : (ofSteps overlapping).completed.toList =
        [.dispatch #[⟨.bytes [97], 0⟩, ⟨.range 97 122, 1⟩, ⟨.anyByte, 2⟩, ⟨.eof, 3⟩], .terminal 7,
          .dispatch #[⟨.all, 3⟩], .terminal 9] := by decide +kernel
    rw [hDrafts]
    apply admissible_of_edges (by decide) (by decide)
    · simp [reservedAction]
    · simp [SymbolSet.covers_eof_iff]
  obtain ⟨a, hBuild⟩ := exists_build_iff.mpr ⟨by decide, by decide +kernel, hAdmissible⟩
  have hFulfils := fulfils_of_build hBuild
  have hFirst : overlapping = [] ++ .dispatch :: overlapping.tail := rfl
  exact ⟨a, hBuild, hFulfils, hFulfils.covered hFirst rfl, hFulfils.covered hFirst rfl,
    (hFulfils.uncovered hFirst rfl).2, (hFulfils.uncovered hFirst rfl).2,
    (hFulfils.fallback rfl).2⟩

/-- A state that reads on over letters, with a catch-all for the rest. -/
def letters : List Step := [.dispatch, .edge 0 (.range 97 122) 0, .catchAll 9]

theorem exists_build_letters : ∃ a, (ofSteps letters).build = .ok a := by
  have hAdmissible : Admissible (ofSteps letters).completed.toList := by
    have hDrafts : (ofSteps letters).completed.toList =
        [.dispatch #[⟨.range 97 122, 0⟩, ⟨.anyByte, 1⟩, ⟨.eof, 2⟩], .dispatch #[⟨.all, 2⟩],
          .terminal 9] := by decide +kernel
    rw [hDrafts]
    apply admissible_of_edges (by decide) (by decide)
    · simp [reservedAction]
    · simp [SymbolSet.covers_eof_iff]
  exact exists_build_iff.mpr ⟨by decide, by decide +kernel, hAdmissible⟩

end StreamLexer.Assembly
