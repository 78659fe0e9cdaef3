import StreamLexer.Automaton.Assembly

/-!
# What the steps of a construction leave

Each step of a construction drafts a state behind those there are, asks for a catch-all, or adds an
edge. Once drafted, a state keeps its number and its kind, and a state that reads goes on `x` to the
target of the first step that gave it an edge on `x`. The catch-all stands in where no step did.

## Main definitions

* `Assembly.Step.target?`: the target that a step gives to a symbol at a state
* `Assembly.drafted`, `Assembly.lastCatchAll?`: what steps draft and ask for
* `Assembly.standIn?`: where the catch-all takes a symbol

## Main results

* `Assembly.size_ofSteps`, `Assembly.catchAll?_ofSteps`: the states and the catch-all after steps
* `Assembly.terminal_of_steps`, `Assembly.exists_dispatch_of_steps`: a drafted state after the
  steps that follow
* `Assembly.exists_completed_dispatch`: where the catch-all stands in
-/

namespace StreamLexer

@[simp] theorem SymbolSet.covers_bytes (members : List UInt8) (b : UInt8) :
    (bytes members).covers (.byte b) = members.contains b := rfl

@[simp] theorem SymbolSet.covers_bytes_eof (members : List UInt8) :
    (bytes members).covers .eof = false := rfl

@[simp] theorem SymbolSet.covers_range (low high b : UInt8) :
    (range low high).covers (.byte b) = (decide (low ≤ b) && decide (b ≤ high)) := rfl

theorem SymbolSet.covers_of_isEmpty {symbols : SymbolSet} (h : symbols.isEmpty = true)
    (x : Symbol) : symbols.covers x = false := by
  cases symbols with
  | bytes members =>
    obtain rfl : members = [] := List.isEmpty_iff.mp h
    cases x <;> rfl
  | range low high =>
    cases x with
    | eof => rfl
    | byte b =>
      have hBounds : high < low := by simpa [isEmpty] using h
      rw [covers_range, Bool.and_eq_false_iff, decide_eq_false_iff_not, decide_eq_false_iff_not]
      by_cases hLow : low ≤ b
      · exact .inr fun hHigh => absurd hBounds (UInt8.not_lt.mpr (UInt8.le_trans hLow hHigh))
      · exact .inl hLow
  | anyByte => cases h
  | eof => cases h
  | all => cases h

/-- An edge behind the others counts where none of them does. -/
theorem Draft.successor?_push (edges : Array Edge) (edge : Edge) (s : StateId) (x : Symbol) :
    (Draft.dispatch (edges.push edge)).successor? s x =
      ((Draft.dispatch edges).successor? s x).or
        (if edge.symbols.covers x then some edge.target else none) := by
  simp only [successor?, Array.find?_push]
  cases edges.find? fun edge => edge.symbols.covers x with
  | some first => rfl
  | none => cases edge.symbols.covers x <;> rfl

namespace Assembly

namespace Step

/-- Whether a step drafts a state. -/
def drafts : Step → Bool
  | dispatch => true
  | terminal _ => true
  | _ => false

/-- The action of the catch-all that a step asks for. -/
def catchAll? : Step → Option ActionId
  | catchAll action => some action
  | _ => none

/-- The target of the edge that a step adds to the state `s`, if the edge covers `x`. -/
def target? (s : StateId) (x : Symbol) : Step → Option StateId
  | edge origin symbols target => if origin = s ∧ symbols.covers x then some target else none
  | _ => none

end Step

/-- The number of states that steps draft. -/
def drafted (steps : List Step) : Nat := steps.countP Step.drafts

/-- The action of the last catch-all that steps ask for. -/
def lastCatchAll? (steps : List Step) : Option ActionId :=
  (steps.filterMap Step.catchAll?).getLast?

variable {b : Assembly} {s : StateId} {edges : Array Edge} {action : ActionId}

/-! ### One step -/

theorem size_apply (step : Step) :
    (b.apply step).drafts.size = b.drafts.size + if step.drafts then 1 else 0 := by
  cases step with
  | dispatch => simp [apply, addDispatch, Step.drafts]
  | terminal action => simp [apply, addTerminal, Step.drafts]
  | catchAll action => rfl
  | edge origin symbols target =>
    simp only [apply, addEdge, Step.drafts]
    split
    · rfl
    · split <;> simp [blame]

theorem catchAll?_apply (step : Step) :
    (b.apply step).catchAll? = step.catchAll?.or b.catchAll? := by
  cases step with
  | dispatch => rfl
  | terminal action => rfl
  | catchAll action => rfl
  | edge origin symbols target =>
    simp only [apply, addEdge, Step.catchAll?, Option.none_or]
    split
    · rfl
    · split <;> rfl

theorem terminal_apply {i : Nat} (h : b.drafts[i]? = some (.terminal action)) (step : Step) :
    (b.apply step).drafts[i]? = some (.terminal action) := by
  obtain ⟨hi, -⟩ := Array.getElem?_eq_some_iff.mp h
  cases step with
  | dispatch => simpa [apply, addDispatch, Array.getElem?_push, Nat.ne_of_lt hi] using h
  | terminal other => simpa [apply, addTerminal, Array.getElem?_push, Nat.ne_of_lt hi] using h
  | catchAll other => exact h
  | edge origin symbols target =>
    simp only [apply, addEdge]
    split
    · exact h
    · split
      · next edges hOrigin =>
        have hOther : origin.toNat ≠ i := by
          rintro rfl
          rw [hOrigin] at h
          cases h
        simpa [Array.getElem?_modify, hOther] using h
      · exact h
      · exact h

/-- A state that reads goes on as before after a step, but for the edge that the step adds. -/
theorem exists_dispatch_apply (h : b.drafts[s.toNat]? = some (.dispatch edges)) (step : Step) :
    ∃ edges', (b.apply step).drafts[s.toNat]? = some (.dispatch edges') ∧
      ∀ x, (Draft.dispatch edges').successor? s x =
        ((Draft.dispatch edges).successor? s x).or (step.target? s x) := by
  obtain ⟨hi, -⟩ := Array.getElem?_eq_some_iff.mp h
  cases step with
  | dispatch =>
    refine ⟨edges, ?_, fun x => (Option.or_none).symm⟩
    simpa [apply, addDispatch, Array.getElem?_push, Nat.ne_of_lt hi] using h
  | terminal action =>
    refine ⟨edges, ?_, fun x => (Option.or_none).symm⟩
    simpa [apply, addTerminal, Array.getElem?_push, Nat.ne_of_lt hi] using h
  | catchAll action => exact ⟨edges, h, fun x => (Option.or_none).symm⟩
  | edge origin symbols target =>
    -- the edge is one of `s`, covers nothing, or is another state's
    by_cases hEmpty : symbols.isEmpty = true
    · refine ⟨edges, by simpa [apply, addEdge, hEmpty] using h, fun x => ?_⟩
      simp [Step.target?, SymbolSet.covers_of_isEmpty hEmpty]
    · by_cases hOrigin : origin = s
      · subst hOrigin
        refine ⟨edges.push ⟨symbols, target⟩, ?_, fun x => ?_⟩
        · simp [apply, addEdge, hEmpty, h, Array.getElem?_modify, Draft.push]
        · simp [Draft.successor?_push, Step.target?]
      · have hOther : origin.toNat ≠ s.toNat := fun hSame => hOrigin (UInt32.toNat_inj.mp hSame)
        refine ⟨edges, ?_, fun x => by simp [Step.target?, hOrigin]⟩
        rw [apply, addEdge, if_neg hEmpty]
        split
        · simpa [Array.getElem?_modify, hOther] using h
        · exact h
        · exact h

/-! ### A run of steps -/

theorem size_foldl (steps : List Step) (b : Assembly) :
    (steps.foldl apply b).drafts.size = b.drafts.size + drafted steps := by
  induction steps generalizing b with
  | nil => rfl
  | cons step steps ih =>
    rw [List.foldl_cons, ih, size_apply, drafted, drafted, List.countP_cons]
    omega

theorem catchAll?_foldl (steps : List Step) (b : Assembly) :
    (steps.foldl apply b).catchAll? = (lastCatchAll? steps).or b.catchAll? := by
  induction steps generalizing b with
  | nil => rfl
  | cons step steps ih =>
    have hLast : lastCatchAll? (step :: steps) = (lastCatchAll? steps).or step.catchAll? := by
      rw [lastCatchAll?, lastCatchAll?, List.filterMap_cons]
      cases step.catchAll? with
      | none => exact Option.or_none.symm
      | some action =>
        dsimp only
        rw [List.getLast?_cons]
        cases (steps.filterMap Step.catchAll?).getLast? <;> rfl
    rw [List.foldl_cons, ih, catchAll?_apply, hLast, Option.or_assoc]

theorem terminal_foldl {i : Nat} (steps : List Step) (h : b.drafts[i]? = some (.terminal action)) :
    (steps.foldl apply b).drafts[i]? = some (.terminal action) := by
  induction steps generalizing b with
  | nil => exact h
  | cons step steps ih => exact ih (terminal_apply h step)

theorem exists_dispatch_foldl (steps : List Step)
    (h : b.drafts[s.toNat]? = some (.dispatch edges)) :
    ∃ edges', (steps.foldl apply b).drafts[s.toNat]? = some (.dispatch edges') ∧
      ∀ x, (Draft.dispatch edges').successor? s x =
        ((Draft.dispatch edges).successor? s x).or (steps.findSome? (Step.target? s x)) := by
  induction steps generalizing b edges with
  | nil => exact ⟨edges, h, fun x => Option.or_none.symm⟩
  | cons step steps ih =>
    obtain ⟨edges₁, hStep, hFirst⟩ := exists_dispatch_apply h step
    obtain ⟨edges₂, hSteps, hOthers⟩ := ih hStep
    refine ⟨edges₂, hSteps, fun x => ?_⟩
    rw [hOthers, hFirst, Option.or_assoc, List.findSome?_cons]
    cases step.target? s x <;> rfl

/-! ### A whole construction -/

theorem size_ofSteps (steps : List Step) : (ofSteps steps).drafts.size = drafted steps := by
  rw [ofSteps, size_foldl]
  exact Nat.zero_add _

theorem catchAll?_ofSteps (steps : List Step) :
    (ofSteps steps).catchAll? = lastCatchAll? steps := by
  rw [ofSteps, catchAll?_foldl]
  exact Option.or_none

theorem ofSteps_append (before : List Step) (step : Step) (after : List Step) :
    ofSteps (before ++ step :: after) = after.foldl apply ((ofSteps before).apply step) := by
  rw [ofSteps, List.foldl_append, List.foldl_cons, ofSteps]

theorem terminal_of_steps (before after : List Step) :
    (ofSteps (before ++ .terminal action :: after)).drafts[drafted before]? =
      some (.terminal action) := by
  rw [ofSteps_append]
  apply terminal_foldl
  rw [← size_ofSteps]
  exact Array.getElem?_push_size

/-- **A state that reads keeps its number**, and goes to the target of the first edge that covers a
symbol. -/
theorem exists_dispatch_of_steps (before after : List Step) (hs : s.toNat = drafted before) :
    ∃ edges, (ofSteps (before ++ .dispatch :: after)).drafts[s.toNat]? = some (.dispatch edges) ∧
      ∀ x, (Draft.dispatch edges).successor? s x = after.findSome? (Step.target? s x) := by
  have hNew : ((ofSteps before).apply .dispatch).drafts[s.toNat]? = some (.dispatch #[]) := by
    rw [hs, ← size_ofSteps]
    exact Array.getElem?_push_size
  obtain ⟨edges, hDraft, hSuccessor⟩ := exists_dispatch_foldl after hNew
  rw [← ofSteps_append] at hDraft
  refine ⟨edges, hDraft, fun x => ?_⟩
  rw [hSuccessor]
  rfl

/-! ### The catch-all -/

/-- Where the catch-all takes a symbol: a byte to the state that swallows it, the end of input to
the terminal. -/
def standIn? (b : Assembly) (x : Symbol) : Option StateId :=
  b.catchAll?.map fun _ => if x = .eof then b.nextId + 1 else b.nextId

theorem size_completed :
    b.completed.size = b.drafts.size + if b.catchAll?.isSome then 2 else 0 := by
  rw [completed]
  split
  · next h => simp [h]
  · next h => simp [h]

theorem completed_terminal {i : Nat} (h : b.drafts[i]? = some (.terminal action)) :
    b.completed[i]? = some (.terminal action) := by
  obtain ⟨hi, -⟩ := Array.getElem?_eq_some_iff.mp h
  rw [completed]
  split
  · exact h
  · simp [Array.getElem?_push, Nat.ne_of_lt hi, Nat.ne_of_lt (Nat.lt_succ_of_lt hi), h, Draft.push]

/-- **The catch-all stands in where no edge covers a symbol.** -/
theorem exists_completed_dispatch {i : Nat} (h : b.drafts[i]? = some (.dispatch edges)) :
    ∃ edges', b.completed[i]? = some (.dispatch edges') ∧
      ∀ s x, (Draft.dispatch edges').successor? s x =
        ((Draft.dispatch edges).successor? s x).or (b.standIn? x) := by
  obtain ⟨hi, -⟩ := Array.getElem?_eq_some_iff.mp h
  rw [completed]
  cases hCatch : b.catchAll? with
  | none => exact ⟨edges, h, fun s x => by simp [standIn?, hCatch]⟩
  | some action =>
    refine ⟨(edges.push ⟨.anyByte, b.nextId⟩).push ⟨.eof, b.nextId + 1⟩, ?_, fun s x => ?_⟩
    · simp [Array.getElem?_push, Nat.ne_of_lt hi, Nat.ne_of_lt (Nat.lt_succ_of_lt hi), h,
        Draft.push]
    · rw [Draft.successor?_push, Draft.successor?_push, Option.or_assoc, standIn?, hCatch]
      cases x <;> rfl

theorem completed_swallow (h : b.catchAll? = some action) :
    b.completed[b.drafts.size]? = some (.dispatch #[⟨.all, b.nextId + 1⟩]) := by
  rw [completed, h]
  dsimp only
  rw [Array.getElem?_push, if_neg (by simp), Array.getElem?_push, if_pos (by simp)]

theorem completed_fallback (h : b.catchAll? = some action) :
    b.completed[b.drafts.size + 1]? = some (.terminal action) := by
  rw [completed, h]
  dsimp only
  rw [Array.getElem?_push, if_pos (by simp)]

end Assembly

end StreamLexer
