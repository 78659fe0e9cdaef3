import StreamLexer.Proofs.Automaton.Walk

/-!
# The longest stretch

Byte by byte, some bytes lead a state to another. A state reads on over a stretch of bytes if every
non-empty prefix of the stretch leads it to a dispatch state. A walk that starts at a dispatch state
and reports an action has read the longest stretch of its input that the state reads on over: the
symbol behind it leads to the terminal that the action is reported at, and so out of every longer
stretch.

## Main definitions

* `Automaton.stepAll?`: the state that some bytes lead to
* `Automaton.ReadsOn`: a state reads on over a stretch
* `Automaton.Longest`: the longest prefix that a state reads on over

## Main results

* `Automaton.Longest.unique`: there is one longest stretch at most
* `Automaton.longest_of_action`: a stretch is the longest if the symbol behind it leads to a terminal
* `Automaton.Walks.exists_stretch`: what a walk from a dispatch state reads, and why it stops
-/

namespace StreamLexer

/-- The symbol in front of the last bytes of a stream. -/
def Symbol.front : List UInt8 → Symbol
  | [] => .eof
  | b :: _ => .byte b

namespace Automaton

/-- The state that some bytes lead to, one after the other. -/
def stepAll? (a : Automaton) (s : StateId) (bytes : List UInt8) : Option StateId :=
  bytes.foldlM (fun q b => a.step? q (.byte b)) s

/-- Every non-empty prefix of the bytes leads to a dispatch state. -/
def ReadsOn (a : Automaton) (s : StateId) (bytes : List UInt8) : Prop :=
  ∀ y, y <+: bytes → y ≠ [] →
    ∃ q row, a.stepAll? s y = some q ∧ a.state? q = some (.dispatch row)

/-- `x` is the longest prefix of `bytes` that the state `s` reads on over. -/
structure Longest (a : Automaton) (s : StateId) (bytes x : List UInt8) : Prop where
  within : x <+: bytes
  readsOn : a.ReadsOn s x
  length_le : ∀ {y}, y <+: bytes → a.ReadsOn s y → y.length ≤ x.length

variable {a : Automaton} {s q : StateId}

theorem stepAll?_cons (b : UInt8) (bytes : List UInt8) :
    a.stepAll? s (b :: bytes) = (a.step? s (.byte b)).bind fun t => a.stepAll? t bytes := by
  rw [stepAll?, List.foldlM_cons]
  rfl

theorem stepAll?_append (x y : List UInt8) :
    a.stepAll? s (x ++ y) = (a.stepAll? s x).bind fun t => a.stepAll? t y := by
  rw [stepAll?, List.foldlM_append]
  rfl

theorem readsOn_nil : a.ReadsOn s [] := by
  intro y hy hne
  exact absurd (List.prefix_nil.mp hy) hne

/-- A byte that leads to a dispatch state goes in front of a stretch. -/
theorem ReadsOn.cons {b : UInt8} {bytes : List UInt8} {row : Array StateId}
    (hStep : a.step? s (.byte b) = some q) (hRow : a.state? q = some (.dispatch row))
    (h : a.ReadsOn q bytes) : a.ReadsOn s (b :: bytes) := by
  intro y hy hne
  obtain ⟨c, y, rfl⟩ := List.exists_cons_of_ne_nil hne
  obtain ⟨rfl, hTail⟩ := List.cons_prefix_cons.mp hy
  rw [stepAll?_cons, hStep, Option.bind_some]
  by_cases hEmpty : y = []
  · subst hEmpty
    exact ⟨q, row, rfl, hRow⟩
  · exact h y hTail hEmpty

theorem Longest.unique {bytes x x' : List UInt8} (h : a.Longest s bytes x)
    (h' : a.Longest s bytes x') : x = x' := by
  have hLength : x.length = x'.length :=
    Nat.le_antisymm (h'.length_le h.within h.readsOn) (h.length_le h'.within h'.readsOn)
  have hPrefix : x <+: x' := List.prefix_of_prefix_length_le h.within h'.within (Nat.le_of_eq hLength)
  exact hPrefix.eq_of_length hLength

/-- **A stretch is the longest if the symbol behind it leads to a terminal.** -/
theorem longest_of_action {x left : List UInt8} {target : StateId} {action : ActionId}
    (hReads : a.ReadsOn s x) (hState : a.stepAll? s x = some q)
    (hStep : a.step? q (.front left) = some target) (hAction : a.action? target = some action) :
    a.Longest s (x ++ left) x := by
  refine ⟨List.prefix_append x left, hReads, fun {y} hy hLonger => Nat.not_lt.mp fun hLength => ?_⟩
  obtain ⟨z, rfl⟩ : x <+: y :=
    List.prefix_of_prefix_length_le (List.prefix_append x left) hy (Nat.le_of_lt hLength)
  obtain ⟨b, z, rfl⟩ : ∃ b z', z = b :: z' := by
    apply List.exists_cons_of_ne_nil
    rintro rfl
    simp at hLength
  obtain ⟨left, rfl⟩ : ∃ left', left = b :: left' := by
    obtain ⟨more, hMore⟩ := (List.prefix_append_right_inj x).mp hy
    exact ⟨z ++ more, hMore.symm⟩
  have hNext : x ++ [b] <+: x ++ b :: z := by
    rw [List.prefix_append_right_inj]
    exact List.cons_prefix_cons.mpr ⟨rfl, List.nil_prefix⟩
  obtain ⟨t, row, hTo, hRow⟩ := hLonger _ hNext (by simp)
  change a.step? q (.byte b) = some target at hStep
  rw [stepAll?_append, hState, Option.bind_some, stepAll?_cons, hStep, Option.bind_some] at hTo
  obtain rfl : target = t := Option.some.inj hTo
  simp [Tables.action?, hRow, State.action?] at hAction

/-- **A walk from a dispatch state that reports an action** has read a stretch, and the symbol behind
it leads to the action's terminal. -/
theorem Walks.exists_stretch {atEnd : Bool} {lexeme pending lexeme' left : List UInt8}
    {row : Array StateId} {action : ActionId} (hs : a.state? s = some (.dispatch row))
    (h : a.Walks atEnd lexeme s pending ⟨.matched action, lexeme', left⟩) :
    ∃ x q target, lexeme' = x.reverse ++ lexeme ∧ pending = x ++ left ∧ a.ReadsOn s x ∧
      a.stepAll? s x = some q ∧ a.step? q (.front left) = some target ∧
        a.action? target = some action := by
  generalize hr : (⟨.matched action, lexeme', left⟩ : Walk (Outcome StateId)) = r at h
  induction h generalizing row with
  | terminal hState =>
    rw [hs] at hState
    cases hState
  | dry => cases hr
  | @finish lexeme s row' target action' _ _ hStep hAction =>
    cases hr
    exact ⟨[], s, target, rfl, rfl, readsOn_nil, rfl, hStep, hAction⟩
  | @report lexeme s row' b rest target action' _ hStep hAction =>
    cases hr
    exact ⟨[], s, target, rfl, rfl, readsOn_nil, rfl, hStep, hAction⟩
  | @read lexeme s row' b rest target r _ hStep hAction hWalk ih =>
    obtain ⟨row'', hTarget⟩ := state?_of_action?_eq_none hWalk.lt_size hAction
    obtain ⟨x, q, last, rfl, rfl, hReads, hState, hLast, hFound⟩ := ih hTarget hr
    refine ⟨b :: x, q, last, ?_, rfl, hReads.cons hStep hTarget, ?_, hLast, hFound⟩
    · simp only [List.reverse_cons, List.append_assoc, List.cons_append, List.nil_append]
    · rw [stepAll?_cons, hStep, Option.bind_some, hState]

end Automaton

end StreamLexer
