import StreamLexer.Proofs.Automaton.WellFormed

/-!
# Walks, rule by rule

A walk is derived by five rules: a terminal reports its action; a dispatch state without input asks
for a refill or, at the end of the stream, reports the action behind the end of input; and a byte
either leads to a terminal, which reports without reading it, or is read. From every existing state
exactly one walk is derived, the one that the tables take.

A walk that runs dry can be continued on the bytes that follow, and a walk that reports an action
without the end of the stream in sight is not changed by bytes that follow.

## Main definitions

* `Automaton.Walks`: the derivation of a walk

## Main results

* `Automaton.exists_walks`, `Automaton.Walks.walk_eq`: every existing state has a walk, and it is
  the walk of the tables
* `Automaton.Walks.append_of_refill`, `Automaton.Walks.append_of_matched`: what more bytes change
* `Automaton.Walks.text_append_pending`: a walk loses no byte
* `Automaton.Walks.pending_of_dispatch`: a walk from a dispatch state sees the symbol behind the
  lexeme
-/

namespace StreamLexer

namespace Automaton

/-- The derivation of a walk over pending bytes, from a state and the lexeme before it. -/
inductive Walks (a : Automaton) (atEnd : Bool) :
    List UInt8 → StateId → List UInt8 → Walk (Outcome StateId) → Prop
  | terminal {lexeme s pending action} :
      a.state? s = some (.terminal action) →
      Walks a atEnd lexeme s pending ⟨.matched action, lexeme, pending⟩
  | dry {lexeme s row} :
      atEnd = false → a.state? s = some (.dispatch row) →
      Walks a atEnd lexeme s [] ⟨.refill s, lexeme, []⟩
  | finish {lexeme s row target action} :
      atEnd = true → a.state? s = some (.dispatch row) →
      a.step? s .eof = some target → a.action? target = some action →
      Walks a atEnd lexeme s [] ⟨.matched action, lexeme, []⟩
  | report {lexeme s row b rest target action} :
      a.state? s = some (.dispatch row) →
      a.step? s (.byte b) = some target → a.action? target = some action →
      Walks a atEnd lexeme s (b :: rest) ⟨.matched action, lexeme, b :: rest⟩
  | read {lexeme s row b rest target r} :
      a.state? s = some (.dispatch row) →
      a.step? s (.byte b) = some target → a.action? target = none →
      Walks a atEnd (b :: lexeme) target rest r →
      Walks a atEnd lexeme s (b :: rest) r

/-- A dispatch state has an existing successor on every symbol. -/
theorem exists_step {a : Automaton} {s : StateId} {row : Array StateId}
    (h : a.state? s = some (.dispatch row)) (x : Symbol) :
    ∃ target, a.step? s x = some target ∧ target.toNat < a.size := by
  obtain ⟨target, hTarget, hlt⟩ := exists_target h x
  exact ⟨target, by simp only [step?, h, hTarget], hlt⟩

/-- An existing state has an existing successor on every symbol. -/
theorem exists_step_of_lt {a : Automaton} {s : StateId} (hs : s.toNat < a.size) (x : Symbol) :
    ∃ target, a.step? s x = some target ∧ target.toNat < a.size := by
  obtain ⟨row | action, hState⟩ := exists_state_iff.mpr hs
  · exact exists_step hState x
  · exact ⟨s, by simp only [step?, hState], hs⟩

/-- **Every existing state has a walk.** -/
theorem exists_walks {a : Automaton} {s : StateId} (hs : s.toNat < a.size) (atEnd : Bool)
    (lexeme pending : List UInt8) : ∃ r, a.Walks atEnd lexeme s pending r := by
  induction pending generalizing s lexeme with
  | nil =>
    obtain ⟨row | action, hState⟩ := exists_state_iff.mpr hs
    · cases hEnd : atEnd with
      | false => exact ⟨_, .dry rfl hState⟩
      | true =>
        obtain ⟨target, action, hStep, hAction⟩ := exists_eof_action hState
        exact ⟨_, .finish rfl hState hStep hAction⟩
    · exact ⟨_, .terminal hState⟩
  | cons b rest ih =>
    obtain ⟨row | action, hState⟩ := exists_state_iff.mpr hs
    · obtain ⟨target, hStep, hlt⟩ := exists_step hState (.byte b)
      cases hAction : a.action? target with
      | some action => exact ⟨_, .report hState hStep hAction⟩
      | none =>
        obtain ⟨r, hr⟩ := ih hlt (b :: lexeme)
        exact ⟨r, .read hState hStep hAction hr⟩
    · exact ⟨_, .terminal hState⟩

namespace Walks

variable {a : Automaton} {atEnd : Bool} {lexeme pending : List UInt8} {s : StateId}
  {r : Walk (Outcome StateId)}

/-- **A derived walk is the walk of the tables.** -/
theorem walk_eq (h : a.Walks atEnd lexeme s pending r) :
    a.walk atEnd lexeme s pending = ⟨some r.result, r.lexeme, r.pending⟩ := by
  induction h with
  | @terminal lexeme s pending action hState => cases pending <;> simp only [walk, hState]
  | dry hEnd hState => simp [walk, hState, hEnd]
  | finish hEnd hState hStep hAction => simp [walk, hState, hEnd, hStep, hAction]
  | report hState hStep hAction =>
    simp only [step?, hState] at hStep
    simp only [walk, hState, hStep, hAction]
  | read hState hStep hAction _ ih =>
    simp only [step?, hState] at hStep
    simp only [walk, hState, hStep, hAction, ih]

theorem unique {r' : Walk (Outcome StateId)} (h : a.Walks atEnd lexeme s pending r)
    (h' : a.Walks atEnd lexeme s pending r') : r = r' := by
  have hEq := h.walk_eq.symm.trans h'.walk_eq
  simp only [Walk.mk.injEq, Option.some.injEq] at hEq
  cases r
  cases r'
  simpa using hEq

theorem lt_size (h : a.Walks atEnd lexeme s pending r) : s.toNat < a.size := by
  cases h <;> exact lt_size_of_state? (by assumption)

/-- A walk asks for a refill at a dispatch state, with all bytes read and the end not in sight. -/
theorem of_refill {q : StateId} {lexeme' pending' : List UInt8}
    (h : a.Walks atEnd lexeme s pending ⟨.refill q, lexeme', pending'⟩) :
    pending' = [] ∧ atEnd = false ∧ ∃ row, a.state? q = some (.dispatch row) := by
  generalize hr : (⟨.refill q, lexeme', pending'⟩ : Walk (Outcome StateId)) = r at h
  induction h with
  | terminal => cases hr
  | dry hEnd hState =>
    cases hr
    exact ⟨rfl, hEnd, _, hState⟩
  | finish => cases hr
  | report => cases hr
  | read _ _ _ _ ih => exact ih hr

/-- Bytes and end that follow a walk that runs dry continue it. -/
theorem append_of_refill {q : StateId} {lexeme' pending' more : List UInt8} {atEnd' : Bool}
    (h : a.Walks atEnd lexeme s pending ⟨.refill q, lexeme', pending'⟩)
    (hMore : a.Walks atEnd' lexeme' q more r) : a.Walks atEnd' lexeme s (pending ++ more) r := by
  generalize hq : (⟨.refill q, lexeme', pending'⟩ : Walk (Outcome StateId)) = r' at h
  induction h with
  | terminal => cases hq
  | dry =>
    cases hq
    exact hMore
  | finish => cases hq
  | report => cases hq
  | read hState hStep hAction _ ih => exact .read hState hStep hAction (ih hq)

/-- Bytes and end that follow do not change a walk that reports an action before them. -/
theorem append_of_matched {action : ActionId} {lexeme' pending' : List UInt8}
    (h : a.Walks false lexeme s pending ⟨.matched action, lexeme', pending'⟩) (atEnd' : Bool)
    (more : List UInt8) :
    a.Walks atEnd' lexeme s (pending ++ more) ⟨.matched action, lexeme', pending' ++ more⟩ := by
  generalize hr : (⟨.matched action, lexeme', pending'⟩ : Walk (Outcome StateId)) = r' at h
  induction h with
  | terminal hState =>
    cases hr
    exact .terminal hState
  | dry => cases hr
  | finish hEnd => cases hEnd
  | report hState hStep hAction =>
    cases hr
    exact .report hState hStep hAction
  | read hState hStep hAction _ ih => exact .read hState hStep hAction (ih hr)

/-- A walk loses no byte. -/
theorem text_append_pending (h : a.Walks atEnd lexeme s pending r) :
    r.lexeme.reverse ++ r.pending = lexeme.reverse ++ pending := by
  induction h with
  | read _ _ _ _ ih => simpa using ih
  | _ => rfl

/-- A walk from a dispatch state that reports an action has seen the symbol behind the lexeme. -/
theorem pending_of_dispatch {row : Array StateId} {action : ActionId}
    {lexeme' pending' : List UInt8} (hs : a.state? s = some (.dispatch row))
    (h : a.Walks atEnd lexeme s pending ⟨.matched action, lexeme', pending'⟩) :
    pending' ≠ [] ∨ atEnd = true := by
  generalize hr : (⟨.matched action, lexeme', pending'⟩ : Walk (Outcome StateId)) = r at h
  induction h generalizing row with
  | terminal hState =>
    rw [hs] at hState
    cases hState
  | dry => cases hr
  | finish hEnd => exact .inr hEnd
  | report =>
    cases hr
    exact .inl (List.cons_ne_nil _ _)
  | read hState hStep hAction hWalk ih =>
    obtain ⟨target, hStep', hlt⟩ := exists_step hState (.byte _)
    obtain rfl := Option.some.inj (hStep.symm.trans hStep')
    obtain ⟨row', hTarget⟩ := state?_of_action?_eq_none hlt hAction
    exact ih hTarget hr

end Walks

/-- The walk over a window, from an existing state. -/
theorem run?_of_walks {a : Automaton} {w : Window} {s : StateId} {r : Walk (Outcome StateId)}
    (h : a.Walks w.atEnd w.lexeme s w.pending r) :
    a.run? w s = some (r.result, w.reached r.lexeme r.pending) := by
  simp only [run?, h.walk_eq, Option.map_some]

end Automaton

end StreamLexer
