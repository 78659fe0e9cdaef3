import Mathlib.Data.List.Induction
import StreamLexer.Proofs.Assembly.Fidelity

/-!
# Which constructions can be finished

Whether a construction can be finished is decided in three places: a step notes a fault when it sets
an edge of a state that does not read, the edges are closed when the tables are finished, and the
finished tables are checked. Taken together they ask of the steps that every edge has an origin,
that no state that reads lacks an edge, and that every edge that counts leads to a state; the end of
input has to lead to a terminal, and no terminal may report the reserved action.

The tables are checked with the catch-all worked in. Its two states then exist, although no step
creates them, so that an edge to one of their numbers is no fault.

## Main definitions

* `Assembly.CreatesDispatch`, `Assembly.CreatesTerminal`: the states that steps create
* `Assembly.recorded?`: the target of the first edge that covers a symbol at a state
* `Assembly.Complete`: what has to hold of the steps of a construction

## Main results

* `Assembly.fault?_ofSteps_eq_none_iff`: which steps note no fault
* `Assembly.exists_dispatch_of_created`, `Assembly.terminal_ofSteps_iff`: the drafts of the states
  that steps create
* `Assembly.complete_of_build`, `Assembly.Complete.exists_build`: the two directions
* `Assembly.exists_build_ofSteps_iff`: a construction can be finished exactly if it is complete
-/

namespace StreamLexer.Assembly

/-- The steps create a state with the number `i` that reads a symbol. -/
def CreatesDispatch (steps : List Step) (i : Nat) : Prop :=
  ∃ before after, steps = before ++ .dispatch :: after ∧ drafted before = i

/-- The steps create a terminal with the number `i` that reports the action. -/
def CreatesTerminal (steps : List Step) (i : Nat) (action : ActionId) : Prop :=
  ∃ before after, steps = before ++ .terminal action :: after ∧ drafted before = i

/-- The target of the first edge that covers `x` at the state `s`. -/
def recorded? (steps : List Step) (s : StateId) (x : Symbol) : Option StateId :=
  steps.findSome? (Step.target? s x)

/-- What has to hold of the steps of a construction, so that it can be finished. -/
structure Complete (steps : List Step) : Prop where
  /-- An edge is set at a state that reads and was created before. -/
  origin : ∀ {before origin symbols target after},
    steps = before ++ .edge origin symbols target :: after → symbols.isEmpty = false →
      CreatesDispatch before origin.toNat
  inhabited : 0 < drafted steps ∨ (lastCatchAll? steps).isSome = true
  /-- Every symbol is covered at every state that reads, unless there is a catch-all. -/
  covered : ∀ {s x}, CreatesDispatch steps s.toNat → recorded? steps s x = none →
    (lastCatchAll? steps).isSome = true
  /-- An edge that counts leads to a state that a step creates, or to one of the catch-all. -/
  target_lt : ∀ {s x target}, CreatesDispatch steps s.toNat → recorded? steps s x = some target →
    target.toNat < drafted steps ∨
      ((lastCatchAll? steps).isSome = true ∧ target.toNat < drafted steps + 2)
  /-- The end of input leads to a terminal that a step creates, or to that of the catch-all. -/
  eof_terminal : ∀ {s target}, CreatesDispatch steps s.toNat →
    recorded? steps s .eof = some target →
      (∃ action, CreatesTerminal steps target.toNat action) ∨
        ((lastCatchAll? steps).isSome = true ∧ target.toNat = drafted steps + 1)
  action_ne : ∀ {action}, .terminal action ∈ steps → action ≠ reservedAction
  catchAll_ne : ∀ {action}, lastCatchAll? steps = some action → action ≠ reservedAction

variable {b : Assembly} {steps before after : List Step} {s : StateId} {i : Nat}
  {action : ActionId} {edges : Array Edge}

/-! ### Faults -/

/-- A step that sets an edge sets it at a state that reads. -/
def HasOrigin (b : Assembly) : Step → Prop
  | .edge origin symbols _ =>
    symbols.isEmpty = false → ∃ edges, b.drafts[origin.toNat]? = some (.dispatch edges)
  | _ => True

theorem fault?_blame (cause : Malformed) : (b.blame cause).fault? ≠ none := by
  rw [blame]
  cases b.fault? <;> simp

/-- A step notes no fault exactly if its edge has an origin. -/
theorem fault?_apply_eq_none_iff (step : Step) :
    (b.apply step).fault? = none ↔ b.fault? = none ∧ b.HasOrigin step := by
  cases step with
  | dispatch => exact (and_iff_left True.intro).symm
  | terminal action => exact (and_iff_left True.intro).symm
  | catchAll action => exact (and_iff_left True.intro).symm
  | edge origin symbols target =>
    rw [apply, addEdge, HasOrigin]
    by_cases hEmpty : symbols.isEmpty = true
    · rw [if_pos hEmpty]
      simp [hEmpty]
    · rw [if_neg hEmpty]
      rcases hDraft : b.drafts[origin.toNat]? with _ | edges | action
      · simp [fault?_blame, hEmpty]
      · simp
      · simp [fault?_blame, hEmpty]

/-- A run of steps notes no fault exactly if the edge of each one has an origin when it is set. -/
theorem fault?_ofSteps_eq_none_iff :
    (ofSteps steps).fault? = none ↔
      ∀ before step after, steps = before ++ step :: after → (ofSteps before).HasOrigin step := by
  induction steps using List.reverseRecOn with
  | nil => simp [ofSteps, empty]
  | append_singleton steps last ih =>
    have hLast : ofSteps (steps ++ [last]) = (ofSteps steps).apply last := ofSteps_append steps last []
    rw [hLast, fault?_apply_eq_none_iff, ih]
    constructor
    · rintro ⟨hSteps, hOrigin⟩ before step after hSplit
      rcases List.eq_nil_or_concat after with rfl | ⟨after, x, rfl⟩
      · obtain ⟨rfl, hStep⟩ := List.append_inj' hSplit rfl
        obtain rfl := List.singleton_inj.mp hStep
        exact hOrigin
      · rw [List.concat_eq_append, ← List.cons_append, ← List.append_assoc] at hSplit
        exact hSteps before step after (List.append_inj' hSplit rfl).1
    · intro h
      refine ⟨fun before step after hSplit => ?_, h steps last [] rfl⟩
      exact h before step (after ++ [last]) (by rw [hSplit, List.append_assoc, List.cons_append])

/-! ### The states that steps create -/

theorem drafted_append (before after : List Step) :
    drafted (before ++ after) = drafted before + drafted after := List.countP_append

theorem CreatesDispatch.lt (h : CreatesDispatch steps i) : i < drafted steps := by
  obtain ⟨before, after, rfl, rfl⟩ := h
  have hNew : drafted (.dispatch :: after) = drafted after + 1 := List.countP_cons_of_pos rfl
  rw [drafted_append]
  omega

theorem CreatesDispatch.append (h : CreatesDispatch before i) (after : List Step) :
    CreatesDispatch (before ++ after) i := by
  obtain ⟨before, between, rfl, hi⟩ := h
  exact ⟨before, between ++ after, by rw [List.append_assoc, List.cons_append], hi⟩

/-- Every number below that of the drafts is that of a state that some step creates. -/
theorem created_of_lt (h : i < drafted steps) :
    CreatesDispatch steps i ∨ ∃ action, CreatesTerminal steps i action := by
  induction steps using List.reverseRecOn with
  | nil => cases h
  | append_singleton steps last ih =>
    by_cases hEarlier : i < drafted steps
    · rcases ih hEarlier with hDispatch | ⟨action, before, after, rfl, hi⟩
      · exact .inl (hDispatch.append [last])
      · exact .inr ⟨action, before, after ++ [last],
          by rw [List.append_assoc, List.cons_append], hi⟩
    · -- the last step
      rw [drafted_append] at h
      cases last with
      | dispatch =>
        have hOne : drafted [Step.dispatch] = 1 := rfl
        exact .inl ⟨steps, [], rfl, by omega⟩
      | terminal action =>
        have hOne : drafted [Step.terminal action] = 1 := rfl
        exact .inr ⟨action, steps, [], rfl, by omega⟩
      | edge origin symbols target => exact absurd h hEarlier
      | catchAll action => exact absurd h hEarlier

theorem lt_drafted_of_getElem? {d : Draft} (h : (ofSteps steps).drafts[i]? = some d) :
    i < drafted steps := by
  rw [← size_ofSteps]
  exact (Array.getElem?_eq_some_iff.mp h).1

theorem dispatch_ofSteps_of_created (h : CreatesDispatch steps s.toNat) :
    ∃ edges, (ofSteps steps).drafts[s.toNat]? = some (.dispatch edges) := by
  obtain ⟨before, after, rfl, hs⟩ := h
  obtain ⟨edges, hDraft, -⟩ := exists_dispatch_of_steps before after hs.symm
  exact ⟨edges, hDraft⟩

theorem terminal_ofSteps_of_created (h : CreatesTerminal steps i action) :
    (ofSteps steps).drafts[i]? = some (.terminal action) := by
  obtain ⟨before, after, rfl, rfl⟩ := h
  exact terminal_of_steps before after

/-- **A draft reads exactly if a step created it to read.** -/
theorem dispatch_ofSteps_iff :
    (∃ edges, (ofSteps steps).drafts[s.toNat]? = some (.dispatch edges)) ↔
      CreatesDispatch steps s.toNat := by
  refine ⟨?_, dispatch_ofSteps_of_created⟩
  rintro ⟨edges, hDraft⟩
  rcases created_of_lt (lt_drafted_of_getElem? hDraft) with hDispatch | ⟨action, hTerminal⟩
  · exact hDispatch
  · cases hDraft.symm.trans (terminal_ofSteps_of_created hTerminal)

/-- **A draft is a terminal exactly if a step created it as one.** -/
theorem terminal_ofSteps_iff :
    (ofSteps steps).drafts[s.toNat]? = some (.terminal action) ↔
      CreatesTerminal steps s.toNat action := by
  refine ⟨fun hDraft => ?_, terminal_ofSteps_of_created⟩
  rcases created_of_lt (lt_drafted_of_getElem? hDraft) with hDispatch | ⟨other, hTerminal⟩
  · obtain ⟨edges, hOther⟩ := dispatch_ofSteps_of_created hDispatch
    cases hDraft.symm.trans hOther
  · cases hDraft.symm.trans (terminal_ofSteps_of_created hTerminal)
    exact hTerminal

theorem exists_edge_of_target? {step : Step} {x : Symbol} {target : StateId}
    (h : step.target? s x = some target) :
    ∃ symbols, step = .edge s symbols target ∧ symbols.covers x = true := by
  cases step with
  | edge origin symbols goal =>
    obtain ⟨⟨rfl, hCovers⟩, rfl⟩ : (origin = s ∧ symbols.covers x = true) ∧ goal = target := by
      simpa [Step.target?] using h
    exact ⟨symbols, rfl, hCovers⟩
  | dispatch => cases h
  | terminal action => cases h
  | catchAll action => cases h

/-- **A state that reads goes where its edges were recorded.** Without a fault, no edge was set
before the state was there. -/
theorem exists_dispatch_of_created (hFault : (ofSteps steps).fault? = none)
    (h : CreatesDispatch steps s.toNat) :
    ∃ edges, (ofSteps steps).drafts[s.toNat]? = some (.dispatch edges) ∧
      ∀ x, (Draft.dispatch edges).successor? s x = recorded? steps s x := by
  obtain ⟨before, after, rfl, hs⟩ := h
  obtain ⟨edges, hDraft, hSuccessor⟩ := exists_dispatch_of_steps before after hs.symm
  refine ⟨edges, hDraft, fun x => ?_⟩
  have hBefore : before.findSome? (Step.target? s x) = none := by
    rw [List.findSome?_eq_none_iff]
    intro step hStep
    by_contra hSome
    obtain ⟨target, hTarget⟩ := Option.ne_none_iff_exists'.mp hSome
    obtain ⟨symbols, rfl, hCovers⟩ := exists_edge_of_target? hTarget
    have hEmpty : symbols.isEmpty = false := by
      by_contra hEmpty
      rw [SymbolSet.covers_of_isEmpty (by simpa using hEmpty)] at hCovers
      cases hCovers
    obtain ⟨first, between, rfl⟩ := List.append_of_mem hStep
    have hOrigin := fault?_ofSteps_eq_none_iff.mp hFault first (.edge s symbols target)
      (between ++ .dispatch :: after) (by rw [List.append_assoc, List.cons_append])
    have hLt := (dispatch_ofSteps_iff.mp (hOrigin hEmpty)).lt
    rw [drafted_append] at hs
    omega
  rw [hSuccessor, recorded?, List.findSome?_append, hBefore]
  rfl

/-! ### The drafts with the catch-all worked in -/

theorem size_completed_ofSteps :
    (ofSteps steps).completed.size =
      drafted steps + if (lastCatchAll? steps).isSome then 2 else 0 := by
  rw [size_completed, size_ofSteps, catchAll?_ofSteps]

/-- The numbers of the states with the catch-all worked in. -/
theorem lt_size_completed_iff :
    i < (ofSteps steps).completed.size ↔
      i < drafted steps ∨ ((lastCatchAll? steps).isSome = true ∧ i < drafted steps + 2) := by
  rw [size_completed_ofSteps]
  split_ifs with hCatch
  · rw [and_iff_right hCatch]
    omega
  · simp [hCatch]

theorem exists_draft_of_lt (hi : i < b.drafts.size) :
    (∃ edges, b.drafts[i]? = some (.dispatch edges)) ∨
      ∃ action, b.drafts[i]? = some (.terminal action) := by
  rw [Array.getElem?_eq_getElem hi]
  cases b.drafts[i] with
  | dispatch edges => exact .inl ⟨edges, rfl⟩
  | terminal action => exact .inr ⟨action, rfl⟩

/-- Behind the drafts there are only the two states of the catch-all. -/
theorem completed_cases {d : Draft} (h : b.completed[i]? = some d) :
    i < b.drafts.size ∨ ∃ action, b.catchAll? = some action ∧
      ((i = b.drafts.size ∧ d = .dispatch #[⟨.all, b.nextId + 1⟩]) ∨
        (i = b.drafts.size + 1 ∧ d = .terminal action)) := by
  obtain ⟨hi, -⟩ := Array.getElem?_eq_some_iff.mp h
  rw [size_completed] at hi
  by_cases hDrafted : i < b.drafts.size
  · exact .inl hDrafted
  · cases hCatch : b.catchAll? with
    | none =>
      rw [hCatch] at hi
      exact absurd hi hDrafted
    | some action =>
      rw [hCatch] at hi
      refine .inr ⟨action, rfl, ?_⟩
      obtain rfl | rfl : i = b.drafts.size ∨ i = b.drafts.size + 1 := by
        simp only [Option.isSome_some, if_true] at hi
        omega
      · exact .inl ⟨rfl, Option.some.inj (h.symm.trans (completed_swallow hCatch))⟩
      · exact .inr ⟨rfl, Option.some.inj (h.symm.trans (completed_fallback hCatch))⟩

/-- A state that reads is a drafted one, with the catch-all standing in, or the one that swallows
a byte. -/
theorem completed_dispatch_cases (h : b.completed[i]? = some (.dispatch edges)) :
    (∃ edges', b.drafts[i]? = some (.dispatch edges') ∧
      ∀ s x, (Draft.dispatch edges).successor? s x =
        ((Draft.dispatch edges').successor? s x).or (b.standIn? x)) ∨
      (b.catchAll?.isSome = true ∧
        ∀ s x, (Draft.dispatch edges).successor? s x = some (b.nextId + 1)) := by
  rcases completed_cases h with hi | ⟨action, hCatch, ⟨-, hSwallow⟩ | ⟨-, hFallback⟩⟩
  · rcases exists_draft_of_lt hi with ⟨edges', hDraft⟩ | ⟨action, hDraft⟩
    · obtain ⟨edges'', hCompleted, hStandIn⟩ := exists_completed_dispatch hDraft
      cases h.symm.trans hCompleted
      exact .inl ⟨edges', hDraft, hStandIn⟩
    · cases h.symm.trans (completed_terminal hDraft)
  · cases hSwallow
    refine .inr ⟨by rw [hCatch]; rfl, fun s x => ?_⟩
    cases x <;> rfl
  · cases hFallback

/-- A terminal is a drafted one, or that of the catch-all. -/
theorem completed_terminal_iff :
    b.completed[i]? = some (.terminal action) ↔
      b.drafts[i]? = some (.terminal action) ∨
        (b.catchAll? = some action ∧ i = b.drafts.size + 1) := by
  constructor
  · intro h
    rcases completed_cases h with hi | ⟨other, hCatch, ⟨-, hSwallow⟩ | ⟨hi, hFallback⟩⟩
    · rcases exists_draft_of_lt hi with ⟨edges, hDraft⟩ | ⟨other, hDraft⟩
      · obtain ⟨edges', hCompleted, -⟩ := exists_completed_dispatch hDraft
        cases h.symm.trans hCompleted
      · cases h.symm.trans (completed_terminal hDraft)
        exact .inl hDraft
    · cases hSwallow
    · cases hFallback
      exact .inr ⟨hCatch, hi⟩
  · rintro (hDraft | ⟨hCatch, rfl⟩)
    · exact completed_terminal hDraft
    · exact completed_fallback hCatch

theorem completed_ofSteps_fallback (hCatch : lastCatchAll? steps = some action)
    {target : StateId} (hTarget : target.toNat = drafted steps + 1) :
    (ofSteps steps).completed[target.toNat]? = some (.terminal action) := by
  refine completed_terminal_iff.mpr (.inr ⟨(catchAll?_ofSteps steps).trans hCatch, ?_⟩)
  rw [hTarget, size_ofSteps]

section Numbers

variable (hFew : drafted steps + 2 < UInt32.size)

include hFew

theorem toNat_nextId_of_lt : (ofSteps steps).nextId.toNat = drafted steps := by
  rw [nextId, size_ofSteps]
  exact UInt32.toNat_ofNat_of_lt' (by omega)

theorem toNat_nextId_add_one_of_lt : ((ofSteps steps).nextId + 1).toNat = drafted steps + 1 := by
  rw [UInt32.toNat_add, toNat_nextId_of_lt hFew]
  exact Nat.mod_eq_of_lt (Nat.lt_of_succ_lt hFew)

/-- The drafts are few enough for each to have an id of its own. -/
theorem exists_id_of_drafted {d : Draft} (hDraft : (ofSteps steps).drafts[i]? = some d) :
    ∃ s : StateId, s.toNat = i := by
  have hLt := lt_drafted_of_getElem? hDraft
  exact ⟨UInt32.ofNat i, UInt32.toNat_ofNat_of_lt' (by omega)⟩

end Numbers

/-! ### Completeness -/

/-- Without a fault or a gap, a state that reads goes where its edges were recorded, and else where
the catch-all stands in. -/
theorem exists_completed_of_created (hFault : (ofSteps steps).fault? = none)
    (hGap : gap? (ofSteps steps).completed.toList = none)
    (hCreated : CreatesDispatch steps s.toNat) (x : Symbol) :
    ∃ edges target, (ofSteps steps).completed.toList[s.toNat]? = some (.dispatch edges) ∧
      (Draft.dispatch edges).successor? (UInt32.ofNat s.toNat) x = some target ∧
      (recorded? steps s x).or ((ofSteps steps).standIn? x) = some target := by
  obtain ⟨edges, hDraft, hRecorded⟩ := exists_dispatch_of_created hFault hCreated
  obtain ⟨edges', hCompleted, hStandIn⟩ := exists_completed_dispatch hDraft
  rw [← Array.getElem?_toList] at hCompleted
  obtain ⟨target, hTarget⟩ := exists_successor_of_gap? hGap hCompleted x
  refine ⟨edges', target, hCompleted, hTarget, ?_⟩
  rw [UInt32.ofNat_toNat, hStandIn, hRecorded] at hTarget
  exact hTarget

/-- What can be finished is complete. -/
theorem complete_of_build {a : Automaton} (h : (ofSteps steps).build = .ok a) : Complete steps := by
  obtain ⟨hFault, hGap, hAdmissible⟩ := exists_build_iff.mp ⟨a, h⟩
  refine
    { origin := fun {before origin symbols target after} hSplit hEmpty => ?_
      inhabited := ?_
      covered := fun {s x} hCreated hNone => ?_
      target_lt := fun {s x target} hCreated hSome => ?_
      eof_terminal := fun {s target} hCreated hSome => ?_
      action_ne := fun {action} hMem => ?_
      catchAll_ne := fun {action} hCatch => ?_ }
  · exact dispatch_ofSteps_iff.mp (fault?_ofSteps_eq_none_iff.mp hFault before _ after hSplit hEmpty)
  · exact (lt_size_completed_iff.mp hAdmissible.length_pos).imp_right And.left
  · obtain ⟨-, target, -, -, hTarget⟩ := exists_completed_of_created hFault hGap hCreated x
    rw [hNone, Option.none_or, standIn?, catchAll?_ofSteps] at hTarget
    obtain ⟨action, hCatch, -⟩ := Option.map_eq_some_iff.mp hTarget
    rw [hCatch]
    rfl
  · obtain ⟨edges, target', hDraft, hSuccessor, hTarget⟩ :=
      exists_completed_of_created hFault hGap hCreated x
    rw [hSome, Option.some_or] at hTarget
    obtain rfl := Option.some.inj hTarget
    exact lt_size_completed_iff.mp (hAdmissible.target_lt hDraft hSuccessor)
  · obtain ⟨edges, target', hDraft, hSuccessor, hTarget⟩ :=
      exists_completed_of_created hFault hGap hCreated .eof
    rw [hSome, Option.some_or] at hTarget
    obtain rfl := Option.some.inj hTarget
    obtain ⟨action, hAction⟩ := hAdmissible.eof_terminal hDraft hSuccessor
    rw [Array.getElem?_toList] at hAction
    rcases completed_terminal_iff.mp hAction with hTerminal | ⟨hCatch, hLast⟩
    · exact .inl ⟨action, terminal_ofSteps_iff.mp hTerminal⟩
    · rw [catchAll?_ofSteps] at hCatch
      rw [size_ofSteps] at hLast
      exact .inr ⟨by rw [hCatch]; rfl, hLast⟩
  · obtain ⟨before, after, rfl⟩ := List.append_of_mem hMem
    have hDraft : (ofSteps (before ++ .terminal action :: after)).drafts[drafted before]? =
        some (.terminal action) := terminal_of_steps before after
    have hCompleted := completed_terminal hDraft
    rw [← Array.getElem?_toList] at hCompleted
    exact hAdmissible.action_ne hCompleted
  · have hCompleted := completed_fallback ((catchAll?_ofSteps steps).trans hCatch)
    rw [← Array.getElem?_toList] at hCompleted
    exact hAdmissible.action_ne hCompleted

namespace Complete

/-- The steps of a complete construction note no fault. -/
theorem fault?_eq_none (h : Complete steps) : (ofSteps steps).fault? = none := by
  refine fault?_ofSteps_eq_none_iff.mpr fun before step after hSplit => ?_
  cases step with
  | edge origin symbols target =>
    exact fun hEmpty => dispatch_ofSteps_iff.mpr (h.origin hSplit hEmpty)
  | dispatch => exact True.intro
  | terminal action => exact True.intro
  | catchAll action => exact True.intro

/-- Every state of a complete construction goes somewhere on every symbol, and from the end of input
to a terminal. -/
theorem exists_target (h : Complete steps) (hFew : drafted steps + 2 < UInt32.size)
    (hDraft : (ofSteps steps).completed[i]? = some (.dispatch edges)) (x : Symbol) :
    ∃ target, (Draft.dispatch edges).successor? (UInt32.ofNat i) x = some target ∧
      target.toNat < (ofSteps steps).completed.size ∧
      (x = .eof → ∃ action, (ofSteps steps).completed[target.toNat]? = some (.terminal action)) := by
  have hNext := toNat_nextId_of_lt hFew
  have hLast := toNat_nextId_add_one_of_lt hFew
  simp only [lt_size_completed_iff]
  rcases completed_dispatch_cases hDraft with ⟨edges', hDraft', hStandIn⟩ | ⟨hCatch, hSwallow⟩
  · -- a state that a step creates
    obtain ⟨s, rfl⟩ := exists_id_of_drafted hFew hDraft'
    have hCreated : CreatesDispatch steps s.toNat := dispatch_ofSteps_iff.mp ⟨edges', hDraft'⟩
    obtain ⟨edges'', hSame, hRecorded⟩ := exists_dispatch_of_created h.fault?_eq_none hCreated
    cases hDraft'.symm.trans hSame
    rw [UInt32.ofNat_toNat, hStandIn, hRecorded]
    cases hTarget : recorded? steps s x with
    | some target =>
      refine ⟨target, rfl, h.target_lt hCreated hTarget, ?_⟩
      rintro rfl
      rcases h.eof_terminal hCreated hTarget with ⟨action, hTerminal⟩ | ⟨hCatch, hFallback⟩
      · exact ⟨action, completed_terminal (terminal_ofSteps_of_created hTerminal)⟩
      · obtain ⟨action, hAction⟩ := Option.isSome_iff_exists.mp hCatch
        exact ⟨action, completed_ofSteps_fallback hAction hFallback⟩
    | none =>
      have hCatch := h.covered hCreated hTarget
      obtain ⟨action, hAction⟩ := Option.isSome_iff_exists.mp hCatch
      rw [Option.none_or, standIn?, catchAll?_ofSteps, hAction, Option.map_some]
      refine ⟨_, rfl, .inr ⟨rfl, ?_⟩, ?_⟩
      · split <;> omega
      · rintro rfl
        exact ⟨action, completed_ofSteps_fallback hAction hLast⟩
  · -- the state that swallows a byte
    rw [catchAll?_ofSteps] at hCatch
    obtain ⟨action, hAction⟩ := Option.isSome_iff_exists.mp hCatch
    rw [hSwallow]
    exact ⟨_, rfl, .inr ⟨hCatch, by omega⟩,
      fun _ => ⟨action, completed_ofSteps_fallback hAction hLast⟩⟩

/-- The drafts of a complete construction pass the checks. -/
theorem admissible (h : Complete steps) (hFew : drafted steps + 2 < UInt32.size) :
    Admissible (ofSteps steps).completed.toList := by
  refine
    { length_pos := lt_size_completed_iff.mpr (h.inhabited.imp_right fun hCatch => ⟨hCatch, ?_⟩)
      length_lt := ?_
      action_ne := fun {i action} hDraft => ?_
      target_lt := fun {i edges x target} hDraft hSuccessor => ?_
      eof_terminal := fun {i edges target} hDraft hSuccessor => ?_ }
  · omega
  · rw [Array.length_toList, size_completed_ofSteps]
    split <;> omega
  · rw [Array.getElem?_toList] at hDraft
    rcases completed_terminal_iff.mp hDraft with hTerminal | ⟨hCatch, -⟩
    · obtain ⟨s, rfl⟩ := exists_id_of_drafted hFew hTerminal
      obtain ⟨before, after, hSplit, -⟩ := terminal_ofSteps_iff.mp hTerminal
      exact h.action_ne (hSplit ▸ List.mem_append_right before List.mem_cons_self)
    · exact h.catchAll_ne ((catchAll?_ofSteps steps).symm.trans hCatch)
  · rw [Array.getElem?_toList] at hDraft
    obtain ⟨target', hTarget, hLt, -⟩ := h.exists_target hFew hDraft x
    cases hSuccessor.symm.trans hTarget
    exact hLt
  · rw [Array.getElem?_toList] at hDraft
    obtain ⟨target', hTarget, -, hTerminal⟩ := h.exists_target hFew hDraft .eof
    cases hSuccessor.symm.trans hTarget
    obtain ⟨action, hAction⟩ := hTerminal rfl
    exact ⟨action, by rwa [Array.getElem?_toList]⟩

/-- What is complete can be finished. -/
theorem exists_build (h : Complete steps) (hFew : drafted steps + 2 < UInt32.size) :
    ∃ a, (ofSteps steps).build = .ok a := by
  refine exists_build_iff.mpr ⟨h.fault?_eq_none, gap?_eq_none fun {i d} hDraft x => ?_,
    h.admissible hFew⟩
  rw [Array.getElem?_toList] at hDraft
  cases d with
  | terminal action => exact ⟨_, rfl⟩
  | dispatch edges =>
    obtain ⟨target, hTarget, -⟩ := h.exists_target hFew hDraft x
    exact ⟨target, hTarget⟩

end Complete

/-- **Which constructions can be finished.** Building the assembly of fewer than `2 ^ 32 - 2` states
gives an automaton exactly if its construction is complete: no step set an edge of a terminal or of a
state that was not there; there is a state or a catch-all; every symbol is covered at every state
that reads, unless there is a catch-all; every edge that counts leads to a state that a step creates,
and on the end of input to a terminal that a step creates, where the two states of a catch-all count
as created; and neither a terminal nor the last catch-all reports the reserved action. Otherwise it
gives a defect. -/
theorem exists_build_ofSteps_iff (hFew : drafted steps < UInt32.size - 2) :
    ((∃ a, (ofSteps steps).build = .ok a) ↔ Complete steps) ∧
      (¬ Complete steps → ∃ cause, (ofSteps steps).build = .error cause) := by
  have hIff : (∃ a, (ofSteps steps).build = .ok a) ↔ Complete steps := by
    refine ⟨?_, fun h => h.exists_build (by omega)⟩
    rintro ⟨a, hBuild⟩
    exact complete_of_build hBuild
  refine ⟨hIff, fun hNot => ?_⟩
  cases hBuild : (ofSteps steps).build with
  | error cause => exact ⟨cause, rfl⟩
  | ok a => exact absurd (hIff.mp ⟨a, hBuild⟩) hNot

/-- A state that lacks most of its edges, without a catch-all. -/
theorem exists_build_ofSteps_uncovered :
    drafted [.dispatch, .edge 0 (.bytes [97]) 0] < UInt32.size - 2 ∧
      ∃ cause, (ofSteps [.dispatch, .edge 0 (.bytes [97]) 0]).build = .error cause := by
  have hFew : drafted [.dispatch, .edge 0 (.bytes [97]) 0] < UInt32.size - 2 := by decide
  refine ⟨hFew, (exists_build_ofSteps_iff hFew).2 fun hComplete => ?_⟩
  cases hComplete.covered (s := 0) (x := .byte 98) ⟨[], _, rfl, rfl⟩ rfl

/-- An edge to a number that no step creates, which the catch-all then takes. -/
def dangling : List Step := [.dispatch, .edge 0 (.bytes [97]) 1, .catchAll 0]

/-- The only state that a step creates is `0`. With a catch-all, its edge to `1` is accepted;
an edge there that covers everything is refused without one. -/
theorem exists_build_ofSteps_dangling :
    drafted dangling = 1 ∧ recorded? dangling 0 (.byte 97) = some 1 ∧
      (∃ a, (ofSteps dangling).build = .ok a) ∧
      ∃ cause, (ofSteps [.dispatch, .edge 0 .all 1]).build = .error cause := by
  have hAdmissible : Admissible (ofSteps dangling).completed.toList := by
    have hDrafts : (ofSteps dangling).completed.toList =
        [.dispatch #[⟨.bytes [97], 1⟩, ⟨.anyByte, 1⟩, ⟨.eof, 2⟩], .dispatch #[⟨.all, 2⟩],
          .terminal 0] := by decide +kernel
    rw [hDrafts]
    apply admissible_of_edges (by decide) (by decide)
    · simp [reservedAction]
    · simp [SymbolSet.covers_eof_iff]
  have hBuild := exists_build_iff.mpr ⟨by decide, by decide +kernel, hAdmissible⟩
  refine ⟨rfl, rfl, hBuild, ?_⟩
  cases hAlone : (ofSteps [.dispatch, .edge 0 .all 1]).build with
  | error cause => exact ⟨cause, rfl⟩
  | ok a =>
    have hTarget := (complete_of_build hAlone).target_lt (s := 0) (x := .eof)
      ⟨[], _, rfl, rfl⟩ rfl
    rcases hTarget with hLt | ⟨hCatch, -⟩
    · exact absurd hLt (by decide)
    · cases hCatch

end StreamLexer.Assembly
