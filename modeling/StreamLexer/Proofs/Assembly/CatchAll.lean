import StreamLexer.Proofs.Assembly.Completeness
import StreamLexer.Proofs.Lexing.Tiling

/-!
# What the catch-all takes

A match that starts at a drafted state follows the recorded edges, from one state that reads to the
next. Where it meets a byte for which no edge was recorded, the catch-all takes this byte as well,
and reports what was followed together with the byte; where it meets the end of input without an
edge for it, the catch-all reports what was followed. In no other case does the match end in the
terminal of the catch-all, as long as no recorded edge leads to one of its two states.

So the catch-all never reports an empty lexeme while input is left.

## Main definitions

* `Automaton.EndsAt`: the stretch that a match reads, and the terminal that it ends at
* `Assembly.LeadsTo`: recorded edges lead over some bytes from state to state
* `Assembly.Strays`: following recorded edges over some bytes comes to where none was recorded

## Main results

* `Assembly.exists_step_of_created`: where a drafted state goes
* `Assembly.Strays.endsAt`: what strays ends at the terminal of the catch-all
* `Assembly.strays_or_endsAt`: what does not stray ends at a drafted terminal
* `Assembly.nextMatch_catchAll`: when the next match is that of the catch-all
-/

namespace StreamLexer

/-! ### Where a match ends -/

namespace Automaton

/-- From the state `s`, a match of `rest` reads the stretch `x` and ends at the terminal `target`,
which reports the action. -/
structure EndsAt (a : Automaton) (s : StateId) (rest x : List UInt8) (target : StateId)
    (action : ActionId) : Prop where
  readsOn : a.ReadsOn s x
  /-- The symbol behind the stretch leads to the terminal. -/
  leads : ∃ q left, rest = x ++ left ∧ a.stepAll? s x = some q ∧
    a.step? q (.front left) = some target
  action_eq : a.action? target = some action

variable {a : Automaton} {s q target : StateId} {rest x : List UInt8} {action : ActionId}

/-- A match ends at one place. -/
theorem EndsAt.unique {x' : List UInt8} {target' : StateId} {action' : ActionId}
    (h : a.EndsAt s rest x target action) (h' : a.EndsAt s rest x' target' action') :
    x = x' ∧ target = target' := by
  obtain ⟨q, left, rfl, hState, hStep⟩ := h.leads
  obtain ⟨q', left', hRest, hState', hStep'⟩ := h'.leads
  have hLongest := longest_of_action h.readsOn hState hStep h.action_eq
  have hLongest' := longest_of_action h'.readsOn hState' hStep' h'.action_eq
  rw [← hRest] at hLongest'
  obtain rfl := hLongest.unique hLongest'
  obtain rfl := List.append_cancel_left hRest
  obtain rfl := Option.some.inj (hState.symm.trans hState')
  exact ⟨rfl, Option.some.inj (hStep.symm.trans hStep')⟩

/-- A match that ends at the first symbol reads nothing. -/
theorem endsAt_nil (hStep : a.step? s (.front rest) = some target)
    (hAction : a.action? target = some action) : a.EndsAt s rest [] target action :=
  ⟨readsOn_nil, ⟨s, rest, rfl, rfl, hStep⟩, hAction⟩

/-- A byte that leads to a state that reads goes in front of what a match reads. -/
theorem EndsAt.cons {c : UInt8} {row : Array StateId} (hStep : a.step? s (.byte c) = some q)
    (hRow : a.state? q = some (.dispatch row)) (h : a.EndsAt q rest x target action) :
    a.EndsAt s (c :: rest) (c :: x) target action := by
  obtain ⟨t, left, rfl, hState, hLast⟩ := h.leads
  refine ⟨h.readsOn.cons hStep hRow, ⟨t, left, rfl, ?_, hLast⟩, h.action_eq⟩
  rw [stepAll?_cons, hStep, Option.bind_some, hState]

theorem Finds.exists_endsAt {offset : Nat} {left : List UInt8} {m : Match} {row : Array StateId}
    (hs : a.state? s = some (.dispatch row)) (h : a.Finds s offset rest m left) :
    ∃ target, a.EndsAt s rest m.text target m.action := by
  obtain ⟨q, target, hReads, hState, hStep, hAction⟩ := h.exists_stretch hs
  exact ⟨target, hReads, ⟨q, left, h.text_append_left.symm, hState, hStep⟩, hAction⟩

end Automaton

namespace Assembly

/-- Recorded edges lead over the bytes from one state to another, through states that read. -/
inductive LeadsTo (steps : List Step) : StateId → List UInt8 → StateId → Prop
  | nil {s} : LeadsTo steps s [] s
  | cons {s q t c bytes} :
      recorded? steps s (.byte c) = some q → CreatesDispatch steps q.toNat →
      LeadsTo steps q bytes t → LeadsTo steps s (c :: bytes) t

/-- From the state `s`, recorded edges lead over `rest` to where no edge was recorded for what
comes next. The lexeme is what was followed and, if it is a byte that comes next, this byte. -/
inductive Strays (steps : List Step) (s : StateId) : List UInt8 → List UInt8 → Prop
  | byte {followed t c left} :
      LeadsTo steps s followed t → recorded? steps t (.byte c) = none →
      Strays steps s (followed ++ c :: left) (followed ++ [c])
  | finish {followed t} :
      LeadsTo steps s followed t → recorded? steps t .eof = none →
      Strays steps s followed followed

variable {steps : List Step} {s q t : StateId} {c : UInt8} {rest lexeme bytes : List UInt8}
  {a : Automaton} {action : ActionId}

/-- A recorded edge goes in front of what strays. -/
theorem Strays.cons (hEdge : recorded? steps s (.byte c) = some q)
    (hCreated : CreatesDispatch steps q.toNat) (h : Strays steps q rest lexeme) :
    Strays steps s (c :: rest) (c :: lexeme) := by
  cases h with
  | byte hLeads hNone => exact .byte (.cons hEdge hCreated hLeads) hNone
  | finish hLeads hNone => exact .finish (.cons hEdge hCreated hLeads) hNone

/-- Where an empty lexeme strays, no input is left. -/
theorem Strays.eq_nil (h : Strays steps s rest []) : rest = [] ∧ recorded? steps s .eof = none := by
  generalize hLexeme : [] = lexeme at h
  cases h with
  | byte => simp at hLexeme
  | finish hLeads hNone =>
    subst hLexeme
    cases hLeads
    exact ⟨rfl, hNone⟩

/-! ### The states of a finished automaton -/

section Build

variable (hBuild : (ofSteps steps).build = .ok a)

include hBuild

/-- **A drafted state goes** along the first edge that was recorded for a symbol, and else where the
catch-all stands in. -/
theorem exists_step_of_created (hs : CreatesDispatch steps s.toNat) :
    (∃ row, a.state? s = some (.dispatch row)) ∧
      ∀ x, ∃ target, a.step? s x = some target ∧
        (recorded? steps s x).or ((ofSteps steps).standIn? x) = some target := by
  obtain ⟨hFault, -, -⟩ := build_eq_ok_iff.mp hBuild
  obtain ⟨edges, hDraft, hRecorded⟩ := exists_dispatch_of_created hFault hs
  obtain ⟨edges', hCompleted, hStandIn⟩ := exists_completed_dispatch hDraft
  obtain ⟨hState, hStep⟩ := exists_step_of_build hBuild hCompleted
  refine ⟨hState, fun x => ?_⟩
  obtain ⟨target, hTarget, hTaken⟩ := hStep x
  rw [hStandIn, hRecorded] at hTarget
  exact ⟨target, hTaken, hTarget⟩

theorem step_of_recorded (hs : CreatesDispatch steps s.toNat) {x : Symbol}
    (hEdge : recorded? steps s x = some q) : a.step? s x = some q := by
  obtain ⟨target, hTaken, hTarget⟩ := (exists_step_of_created hBuild hs).2 x
  rw [hEdge, Option.some_or] at hTarget
  exact hTaken.trans hTarget.symm

theorem action_of_created (ht : CreatesTerminal steps t.toNat action) :
    a.action? t = some action := by
  have hState := terminal_of_build hBuild (completed_terminal (terminal_ofSteps_of_created ht))
  rw [Tables.action?, hState]
  rfl

/-- What recorded edges lead to is a drafted state that reads, and so is each state on the way. -/
theorem LeadsTo.stepAll (h : LeadsTo steps s bytes t) (hs : CreatesDispatch steps s.toNat) :
    CreatesDispatch steps t.toNat ∧ a.stepAll? s bytes = some t ∧
      ∀ {x}, a.ReadsOn t x → a.ReadsOn s (bytes ++ x) := by
  induction h with
  | nil => exact ⟨hs, rfl, fun hReads => hReads⟩
  | @cons s q t c bytes hEdge hCreated _ ih =>
    obtain ⟨hLast, hState, hReads⟩ := ih hCreated
    have hStep := step_of_recorded hBuild hs hEdge
    obtain ⟨⟨row, hRow⟩, -⟩ := exists_step_of_created hBuild hCreated
    refine ⟨hLast, ?_, fun hMore => (hReads hMore).cons hStep hRow⟩
    rw [Automaton.stepAll?_cons, hStep, Option.bind_some, hState]

variable (hCatch : lastCatchAll? steps = some action)

include hCatch

theorem step_of_unrecorded (hs : CreatesDispatch steps s.toNat) {x : Symbol}
    (hNone : recorded? steps s x = none) :
    a.step? s x =
      some (if x = .eof then (ofSteps steps).nextId + 1 else (ofSteps steps).nextId) := by
  obtain ⟨target, hTaken, hTarget⟩ := (exists_step_of_created hBuild hs).2 x
  rw [hNone, Option.none_or, standIn?, catchAll?_ofSteps, hCatch, Option.map_some] at hTarget
  rw [hTaken, hTarget]

theorem state_fallback : a.state? ((ofSteps steps).nextId + 1) = some (.terminal action) := by
  apply terminal_of_build hBuild
  rw [toNat_fallback_of_build hBuild hCatch, ← size_ofSteps]
  exact completed_fallback ((catchAll?_ofSteps steps).trans hCatch)

/-- **What strays ends at the terminal of the catch-all**, with the lexeme that strays. -/
theorem Strays.endsAt (h : Strays steps s rest lexeme) (hs : CreatesDispatch steps s.toNat) :
    a.EndsAt s rest lexeme ((ofSteps steps).nextId + 1) action := by
  have hAction : a.action? ((ofSteps steps).nextId + 1) = some action := by
    rw [Tables.action?, state_fallback hBuild hCatch]
    rfl
  cases h with
  | @byte followed t c left hLeads hNone =>
    obtain ⟨ht, hState, hReads⟩ := hLeads.stepAll hBuild hs
    obtain ⟨⟨row, hSwallow⟩, hFallback⟩ := swallow_of_build hBuild hCatch
    have hStep : a.step? t (.byte c) = some (ofSteps steps).nextId :=
      step_of_unrecorded hBuild hCatch ht hNone
    refine ⟨hReads (Automaton.readsOn_nil.cons hStep hSwallow),
      ⟨(ofSteps steps).nextId, left, ?_, ?_, hFallback _⟩, hAction⟩
    · rw [List.append_assoc]
      rfl
    · rw [Automaton.stepAll?_append, hState, Option.bind_some, Automaton.stepAll?_cons, hStep]
      rfl
  | @finish followed t hLeads hNone =>
    obtain ⟨ht, hState, hReads⟩ := hLeads.stepAll hBuild hs
    have hStep : a.step? t .eof = some ((ofSteps steps).nextId + 1) :=
      step_of_unrecorded hBuild hCatch ht hNone
    refine ⟨?_, ⟨t, [], (List.append_nil _).symm, hState, hStep⟩, hAction⟩
    have hRead := hReads Automaton.readsOn_nil
    rwa [List.append_nil] at hRead

omit hCatch

/-- **What does not stray ends at a drafted terminal.** -/
theorem strays_or_endsAt
    (hTargets : ∀ {s x target}, CreatesDispatch steps s.toNat → recorded? steps s x = some target →
      target.toNat < drafted steps)
    (hs : CreatesDispatch steps s.toNat) (rest : List UInt8) :
    (∃ lexeme, Strays steps s rest lexeme) ∨
      ∃ x target action, a.EndsAt s rest x target action ∧ target.toNat < drafted steps := by
  induction rest generalizing s with
  | nil =>
    cases hEdge : recorded? steps s .eof with
    | none => exact .inl ⟨[], .finish .nil hEdge⟩
    | some target =>
      obtain ⟨⟨row, hRow⟩, -⟩ := exists_step_of_created hBuild hs
      obtain ⟨target', action, hStep, hAction⟩ := Automaton.exists_eof_action hRow
      obtain rfl := Option.some.inj ((step_of_recorded hBuild hs hEdge).symm.trans hStep)
      exact .inr ⟨[], target, action, Automaton.endsAt_nil hStep hAction, hTargets hs hEdge⟩
  | cons c rest ih =>
    cases hEdge : recorded? steps s (.byte c) with
    | none => exact .inl ⟨[c], .byte .nil hEdge⟩
    | some target =>
      have hStep := step_of_recorded hBuild hs hEdge
      have hLt := hTargets hs hEdge
      rcases created_of_lt hLt with hCreated | ⟨action, hTerminal⟩
      · obtain ⟨⟨row, hRow⟩, -⟩ := exists_step_of_created hBuild hCreated
        rcases ih hCreated with ⟨lexeme, hStrays⟩ | ⟨x, last, action, hEnds, hLast⟩
        · exact .inl ⟨c :: lexeme, hStrays.cons hEdge hCreated⟩
        · exact .inr ⟨c :: x, last, action, hEnds.cons hStep hRow, hLast⟩
      · exact .inr ⟨[], target, action,
          Automaton.endsAt_nil hStep (action_of_created hBuild hTerminal), hLt⟩

end Build

/-- **When the next match is that of the catch-all.** Let a construction with a catch-all be
finished, and let its recorded edges lead to drafted states only. From a drafted state that reads,
on a buffer over chunks with `rest` still to come, the next match ends in the terminal of the
catch-all exactly if following recorded edges over `rest` comes to where none was recorded for the
next byte or for the end of input. The lexeme is then what was followed, and such a byte. It is
empty only if nothing is left and the state has no recorded edge for the end of input. -/
theorem nextMatch_catchAll (hBuild : (ofSteps steps).build = .ok a)
    (hCatch : lastCatchAll? steps = some action)
    (hTargets : ∀ {s x target}, CreatesDispatch steps s.toNat → recorded? steps s x = some target →
      target.toNat < drafted steps)
    (hs : CreatesDispatch steps s.toNat) (backend : Backend) {b : ScanBuffer} {chunks : List Chunk}
    (hSource : b.source = .queue chunks)
    (hRest : rest = b.window.pending ++ if b.window.atEnd then [] else Chunk.delivered chunks) :
    a.state? ((ofSteps steps).nextId + 1) = some (.terminal action) ∧
      ∃ e m target b', Engine.ofAutomaton backend a s = .ok e ∧ e.nextMatch b = (.ok m, b') ∧
        a.EndsAt s rest m.text target m.action ∧
        (target = (ofSteps steps).nextId + 1 ↔ ∃ lexeme, Strays steps s rest lexeme) ∧
        (∀ lexeme, Strays steps s rest lexeme → m.text = lexeme) ∧
        (target = (ofSteps steps).nextId + 1 → m.text = [] →
          rest = [] ∧ recorded? steps s .eof = none) := by
  obtain ⟨⟨row, hRow⟩, -⟩ := exists_step_of_created hBuild hs
  have hEntry := Automaton.lt_size_of_state? hRow
  have hRemains : b.Remains rest := hRest ▸ ScanBuffer.remains_of_queue hSource
  obtain ⟨m, left, b', hFinds, hMatch, -⟩ := Engine.nextMatch_finds hEntry backend hRemains
  obtain ⟨target, hEnds⟩ := hFinds.exists_endsAt hRow
  have hStrays : ∀ lexeme, Strays steps s rest lexeme →
      m.text = lexeme ∧ target = (ofSteps steps).nextId + 1 := fun lexeme hStrays =>
    hEnds.unique (hStrays.endsAt hBuild hCatch hs)
  have hCaught : target = (ofSteps steps).nextId + 1 → ∃ lexeme, Strays steps s rest lexeme := by
    rintro rfl
    rcases strays_or_endsAt hBuild hTargets hs rest with hFound | ⟨x, last, other, hEnds', hLast⟩
    · exact hFound
    · obtain ⟨-, rfl⟩ := hEnds.unique hEnds'
      rw [toNat_fallback_of_build hBuild hCatch] at hLast
      omega
  refine ⟨state_fallback hBuild hCatch, _, m, target, b', Engine.ofAutomaton_of_lt hEntry backend,
    hMatch, hEnds, ⟨hCaught, ?_⟩, fun lexeme h => (hStrays lexeme h).1, fun hTarget hText => ?_⟩
  · rintro ⟨lexeme, h⟩
    exact (hStrays lexeme h).2
  · obtain ⟨lexeme, h⟩ := hCaught hTarget
    obtain rfl : [] = lexeme := hText.symm.trans (hStrays lexeme h).1
    exact h.eq_nil

theorem target_of_letters {s target : StateId} {x : Symbol}
    (h : recorded? letters s x = some target) : target = 0 := by
  obtain ⟨step, hMem, hTarget⟩ := List.exists_of_findSome?_eq_some h
  obtain ⟨symbols, rfl, -⟩ := exists_edge_of_target? hTarget
  simp [letters] at hMem
  exact hMem.2.2

/-- Letters are followed across a cut, and the digit behind them is taken along. -/
theorem nextMatch_catchAll_letters :
    lastCatchAll? letters = some 9 ∧ CreatesDispatch letters (0 : StateId).toNat ∧
      (∀ {s x target}, CreatesDispatch letters s.toNat → recorded? letters s x = some target →
        target.toNat < drafted letters) ∧
      ∃ a e m b', (ofSteps letters).build = .ok a ∧ Engine.ofAutomaton .direct a 0 = .ok e ∧
        e.nextMatch (.ofSource [97] (.queue [.more [98, 48], .last [99]])) = (.ok m, b') ∧
        m.text = [97, 98, 48] ∧ m.action = 9 := by
  have hCreated : CreatesDispatch letters (0 : StateId).toNat := ⟨[], _, rfl, rfl⟩
  have hTargets : ∀ {s x target}, CreatesDispatch letters s.toNat →
      recorded? letters s x = some target → target.toNat < drafted letters := by
    intro s x target _ hEdge
    obtain rfl := target_of_letters hEdge
    decide
  obtain ⟨a, hBuild⟩ := exists_build_letters
  obtain ⟨hState, e, m, target, b', hEngine, hMatch, hEnds, hCaught, hText, -⟩ :=
    @nextMatch_catchAll letters 0 [97, 98, 48, 99] a 9 hBuild rfl hTargets hCreated .direct
      (.ofSource [97] (.queue [.more [98, 48], .last [99]])) _ rfl rfl
  have hStrays : Strays letters 0 [97, 98, 48, 99] [97, 98, 48] :=
    .byte (.cons rfl hCreated (.cons rfl hCreated .nil)) rfl
  obtain rfl := hCaught.mpr ⟨_, hStrays⟩
  have hAction := hEnds.action_eq
  rw [Tables.action?, hState] at hAction
  exact ⟨rfl, hCreated, hTargets, a, e, m, b', hBuild, hEngine, hMatch, hText _ hStrays,
    (Option.some.inj hAction).symm⟩

end Assembly

end StreamLexer
