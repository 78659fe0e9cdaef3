import StreamLexer.Proofs.Rule.Lexeme

/-!
# A rule and the search of its engine

A rule that is invoked drives its engine in a loop of its own: it scans, and takes in more input
where the scan runs dry, until an action is reported. The search for the next match is another such
loop. Both make the same scans and the same refills, so that the rule comes to the match that the
search finds, with the same bytes taken in, or fails as the search does.

What the rule makes of its match is its own: it refuses an empty one that does not stand at the end
of the stream, and hands any other to its action. Since a rule is accepted only if it defines all
actions that its automaton reports, that action is there.

## Main definitions

* `RuleSet.LeadsTo`: what an invocation shows, and the step that it goes on with
* `RuleSet.Finds`: an invocation comes to the match in the window of a buffer

## Main results

* `RuleSet.matchFrom_cases`: an invocation fails or comes to its match as the search does
* `RuleSet.step_ne_noAction`: the action that is reported is defined
* `invoke_nextMatch`: a rule acts on the next match
-/

namespace StreamLexer

variable {n : Nat} {P R ω : Type}

/-! ### The points of a scan -/

namespace Engine

variable {a : Automaton} {entry s : StateId} {backend : Backend}

/-- A scan fails at a point whose state does not exist. -/
theorem run_of_size_le (hs : a.size ≤ s.toNat) (entry : StateId) (w : Window) :
    ((inForm backend a entry).run w (backend.point s)).1 =
      .error (.malformed (match backend with
        | .table => .missingEntry s a.size
        | .direct => .missingUnit s a.size)) := by
  have hSize : (Program.ofAutomaton a).size = a.size := Array.size_mapIdx
  cases backend with
  | table =>
    have hNone : a.state? s = none := Array.getElem?_eq_none hs
    have hRun : a.run? w s = none := by
      cases hPending : w.pending <;> simp [Automaton.run?, Automaton.walk, hNone, hPending]
    simp only [inForm, Backend.point, run, hRun]
  | direct =>
    have hNone : (Program.ofAutomaton a).units[s.toNat]? = none := by
      apply Array.getElem?_eq_none
      rw [← Program.size, hSize]
      exact hs
    have hRun : ((Program.ofAutomaton a).run w s).1 = .error (.missingUnit s a.size) := by
      rw [← hSize]
      cases hPending : w.pending <;> cases hEnd : w.atEnd <;>
        simp [Program.run, Program.walk, Program.settle, hNone, hPending, hEnd]
    rcases hResult : (Program.ofAutomaton a).run w s with ⟨result, w'⟩
    rw [hResult] at hRun
    dsimp only at hRun
    subst hRun
    simp only [inForm, Backend.point, run, hResult]

/-- **A scan starts at an existing state, or fails for its point.** -/
theorem point_cases (backend : Backend) (a : Automaton) (entry : StateId) (point : ResumePoint) :
    (∃ s, s.toNat < a.size ∧ point = backend.point s) ∨
      ∀ w, ∃ cause, ((inForm backend a entry).run w point).1 = .error (.malformed cause) ∧
        ∀ rule action count, cause ≠ .ruleNoAction rule action count := by
  by_cases hBackend : point = backend.point point.id
  · rcases Nat.lt_or_ge point.id.toNat a.size with hLt | hLe
    · exact .inl ⟨point.id, hLt, hBackend⟩
    · right
      intro w
      rw [hBackend]
      refine ⟨_, run_of_size_le hLe entry w, ?_⟩
      cases backend <;> simp
  · -- a point of the other form
    right
    intro w
    cases backend <;> cases point <;> first
      | exact absurd rfl hBackend
      | exact ⟨_, rfl, by simp⟩

end Engine

namespace RuleSet

/-- Followed for so many scans and one more, an invocation has shown the events, and goes on with
the step. -/
def LeadsTo (rules : RuleSet n P R) (hook : Hook n P R ω) (k : Continuation n P) (scans : Nat)
    (events : List (Event n P R)) (next : Step n P R) : Prop :=
  ∀ fuel c, rules.follow hook (fuel + scans + 1) k c = rules.goOn hook fuel next (c.record events)

/-- After so many refills, an invocation hands the lexeme in the window of `b` to the action. Before
that, it has called no action, and was suspended once for each refill if its rule is hooked. -/
structure Finds (rules : RuleSet n P R) (hook : Hook n P R ω) (k : Continuation n P)
    (action : ActionId) (b : ScanBuffer) (refills : Nat) (events : List (Event n P R)) : Prop where
  calls_eq : events.filterMap Event.call? = []
  suspensions_eq : events.countP Event.isSuspension =
    if (rules.rule k.rule).hooked then refills else 0
  refills_eq : b.refills = k.buffer.refills + refills
  refills_le : refills ≤ k.buffer.toCome
  leadsTo : rules.LeadsTo hook k refills
    (events ++ (rules.dispatch { k with buffer := b } action).1)
    (rules.dispatch { k with buffer := b } action).2

variable {rules : RuleSet n P R} {hook : Hook n P R ω} {k : Continuation n P} {b : ScanBuffer}

/-! ### Refills on the way -/

theorem leadsTo_of_step {events : List (Event n P R)} {next : Step n P R}
    (h : rules.step k = (events, next)) : rules.LeadsTo hook k 0 events next := by
  intro fuel c
  rw [Nat.add_zero, follow_eq_goOn, h]

section Refill

variable {k' : Continuation n P}
  (hHook : (rules.rule k.rule).hooked = true → hook = Hook.passThrough)
  (hStep : rules.step k =
    if (rules.rule k.rule).hooked then ([], .suspended k') else refillInPlace k')
include hHook hStep

/-- A refill that fails ends the invocation, whether in place or on resumption. -/
theorem leadsTo_of_refill_error {error : LexError}
    (hRefill : k'.buffer.refill = (.error error, b)) :
    ∃ shown, shown.filterMap Event.call? = [] ∧
      rules.LeadsTo hook k 0 shown (.failed error b) := by
  by_cases hHooked : (rules.rule k.rule).hooked = true
  · obtain rfl := hHook hHooked
    rw [if_pos hHooked] at hStep
    refine ⟨[.suspended k'], rfl, fun fuel c => ?_⟩
    rw [Nat.add_zero, follow_of_suspended hStep, Hook.passThrough, Plan.carryOut_passThrough,
      Continuation.resumeBy, hRefill]
    rfl
  · rw [if_neg hHooked, refillInPlace, hRefill] at hStep
    exact ⟨[], rfl, leadsTo_of_step hStep⟩

/-- A refill that succeeds is followed by the same, whether in place or on resumption. -/
theorem leadsTo_of_refill {r : Option Refill} {scans : Nat} {events : List (Event n P R)}
    {next : Step n P R} (hRefill : k'.buffer.refill = (.ok r, b))
    (h : rules.LeadsTo hook { k' with buffer := b } scans events next) :
    ∃ shown, shown.filterMap Event.call? = [] ∧
      shown.countP Event.isSuspension = (if (rules.rule k.rule).hooked then 1 else 0) ∧
      rules.LeadsTo hook k (scans + 1) (shown ++ events) next := by
  have hNone : (refillEvents r : List (Event n P R)).countP Event.isSuspension = 0 := by
    cases r <;> rfl
  by_cases hHooked : (rules.rule k.rule).hooked = true
  · obtain rfl := hHook hHooked
    rw [if_pos hHooked] at hStep
    refine ⟨.suspended k' :: (refillEvents r ++ [.resumed { k' with buffer := b }]), ?_, ?_, ?_⟩
    · rw [List.filterMap_cons_none rfl, call?_resumed]
    · rw [if_pos hHooked, List.countP_cons_of_pos rfl, List.countP_append, hNone]
      rfl
    · intro fuel c
      rw [follow_of_suspended hStep, Hook.passThrough, Plan.carryOut_passThrough,
        Continuation.resumeBy_of_refill hRefill]
      refine (h fuel _).trans ?_
      simp [Course.record, Course.suspend]
  · rw [if_neg hHooked, refillInPlace, hRefill] at hStep
    refine ⟨refillEvents r, call?_refillEvents r, ?_, fun fuel c => ?_⟩
    · rw [if_neg hHooked, hNone]
    · rw [follow_of_next hStep, ← Course.record_record]
      exact h fuel _

end Refill

/-! ### The search beside the invocation -/

theorem finds_of_matched {action : ActionId} {w : Window}
    (hRun : (rules.rule k.rule).engine.run k.buffer.window k.point = (.ok (.matched action), w)) :
    rules.Finds hook k action { k.buffer with window := w } 0 [] where
  calls_eq := rfl
  suspensions_eq := by simp
  refills_eq := rfl
  refills_le := Nat.zero_le _
  leadsTo := leadsTo_of_step (rules.step_of_matched hRun)

/-- What is found after a refill is found before it, with one refill more. -/
theorem Finds.of_refill {point : ResumePoint} {lexeme : List UInt8} {r : Option Refill}
    {b' : ScanBuffer} {action : ActionId} {refills : Nat} {events : List (Event n P R)}
    (hHook : (rules.rule k.rule).hooked = true → hook = Hook.passThrough)
    (hRun : (rules.rule k.rule).engine.run k.buffer.window k.point =
      (.ok (.refill point), k.buffer.window.reached lexeme []))
    (hEnd : k.buffer.window.atEnd = false)
    (hRefill : (k.stopAt point (k.buffer.window.reached lexeme [])).buffer.refill = (.ok r, b'))
    (h : rules.Finds hook ⟨k.rule, point, b', k.params⟩ action b refills events) :
    ∃ events', rules.Finds hook k action b (refills + 1) events' := by
  obtain ⟨shown, hCalls, hCount, hLeads⟩ :=
    leadsTo_of_refill hHook (rules.step_of_refill hRun) hRefill h.leadsTo
  have hTaken : b'.refills = k.buffer.refills + 1 := ScanBuffer.refills_of_refill
    (b := { k.buffer with window := k.buffer.window.reached lexeme [] }) hEnd hRefill
  have hLess : b'.toCome < k.buffer.toCome := ScanBuffer.toCome_refill_reached_lt hEnd hRefill
  refine ⟨shown ++ events, ?_, ?_, ?_, ?_, ?_⟩
  · rw [List.filterMap_append, hCalls, h.calls_eq]
    rfl
  · have hLater : events.countP Event.isSuspension =
        if (rules.rule k.rule).hooked then refills else 0 := h.suspensions_eq
    rw [List.countP_append, hCount, hLater]
    split <;> omega
  · have hLater : b.refills = b'.refills + refills := h.refills_eq
    omega
  · have hLater : refills ≤ b'.toCome := h.refills_le
    omega
  · rw [List.append_assoc]
    exact hLeads

/-- **An invocation fails or comes to its match as the search of its engine does**, with the same
error and the same buffer, unless a host that is asked on the way does more than to resume. -/
theorem matchFrom_cases {backend : Backend} {a : Automaton} {entry s : StateId}
    (hEngine : (rules.rule k.rule).engine = Engine.inForm backend a entry) (hs : s.toNat < a.size)
    (hPoint : k.point = backend.point s)
    (hHook : (rules.rule k.rule).hooked = true → hook = Hook.passThrough) :
    (∃ error b scans events,
      (rules.rule k.rule).engine.matchFrom k.point k.buffer = (.error error, b) ∧
        events.filterMap Event.call? = [] ∧ rules.LeadsTo hook k scans events (.failed error b)) ∨
    ∃ action b refills events,
      (rules.rule k.rule).engine.matchFrom k.point k.buffer =
          (.ok (Engine.matchOf action b.window), b.beginLexeme) ∧
        (∃ target, a.action? target = some action) ∧
        rules.Finds hook k action b refills events := by
  -- refill by refill, at the same states
  induction hn : k.buffer.toCome using Nat.strong_induction_on generalizing k s with
  | _ m ih =>
    subst hn
    rcases Engine.scan_cases hs backend entry k.buffer.window with
      ⟨action, lexeme, pending, hWalks, hRun⟩ | ⟨q, row, lexeme, hEnd, hRow, -, hRun⟩
    · rw [← hEngine, ← hPoint] at hRun
      let w := k.buffer.window.reached lexeme pending
      have hMatch : (rules.rule k.rule).engine.matchFrom k.point k.buffer =
        (.ok (Engine.matchOf action w), { k.buffer with window := w.beginLexeme }) :=
        Engine.matchFrom_of_matched hRun
      exact .inr ⟨action, { k.buffer with window := w }, 0, [], hMatch, hWalks.exists_action,
        finds_of_matched hRun⟩
    · rw [← hEngine, ← hPoint] at hRun
      let k' := k.stopAt (backend.point q) (k.buffer.window.reached lexeme [])
      rcases hRefill : k'.buffer.refill with ⟨error | r, b'⟩
      · obtain ⟨shown, hCalls, hLeads⟩ :=
          leadsTo_of_refill_error hHook (rules.step_of_refill hRun) hRefill
        exact .inl ⟨error, b', 0, shown, Engine.matchFrom_of_refill_error hRun hEnd hRefill, hCalls,
          hLeads⟩
      · rw [Engine.matchFrom_of_refill_ok hRun hEnd hRefill]
        have hLess : b'.toCome < k.buffer.toCome :=
          ScanBuffer.toCome_refill_reached_lt hEnd hRefill
        rcases ih b'.toCome hLess (k := ⟨k.rule, backend.point q, b', k.params⟩) hEngine
          (Automaton.lt_size_of_state? hRow) rfl hHook rfl with
          ⟨error, b, scans, events, hError, hCalls, hLeads⟩ |
          ⟨action, b, refills, events, hMatch, hAction, hFinds⟩
        · obtain ⟨shown, hNone, -, hLeads'⟩ :=
            leadsTo_of_refill hHook (rules.step_of_refill hRun) hRefill hLeads
          refine .inl ⟨error, b, scans + 1, shown ++ events, hError, ?_, hLeads'⟩
          rw [List.filterMap_append, hNone, hCalls]
          rfl
        · obtain ⟨events', hFinds'⟩ := hFinds.of_refill hHook hRun hEnd hRefill
          exact .inr ⟨action, b, refills + 1, events', hMatch, hAction, hFinds'⟩

/-- From the start of an invocation, the search is the one for the next match. -/
theorem nextMatch_cases {i : Fin n} {backend : Backend} {a : Automaton} {entry : StateId}
    (hEngine : Engine.ofAutomaton backend a entry = .ok (rules.rule i).engine)
    (hHook : (rules.rule i).hooked = true → hook = Hook.passThrough) (b : ScanBuffer)
    (params : P) :
    (∃ error b' scans events, (rules.rule i).engine.nextMatch b = (.error error, b') ∧
      events.filterMap Event.call? = [] ∧
      rules.LeadsTo hook (rules.start i b params) scans events (.failed error b')) ∨
    ∃ action b' refills events,
      (rules.rule i).engine.nextMatch b =
          (.ok (Engine.matchOf action b'.window), b'.beginLexeme) ∧
        (∃ target, a.action? target = some action) ∧
        rules.Finds hook (rules.start i b params) action b' refills events := by
  obtain ⟨hEntry, hForm⟩ := Engine.ofAutomaton_eq_ok_iff.mp hEngine
  have hPoint : (rules.start i b params).point = backend.point entry := by
    rw [start, ← hForm, Engine.entry_inForm]
  exact matchFrom_cases (k := rules.start i b params) hForm.symm hEntry hPoint hHook

/-! ### What a rule makes of its match -/

section Dispatch

variable {action : ActionId}

theorem dispatch_of_empty (hSpan : (Engine.matchOf action k.buffer.window).span.isEmpty = true)
    (hMore : k.buffer.isExhausted = false) :
    rules.dispatch k action = ([], .failed (.malformed (.ruleEmptyMatch (rules.rule k.rule).name
      action (Engine.matchOf action k.buffer.window).span.start)) k.buffer) := by
  simp only [dispatch, hSpan, hMore]
  rfl

theorem dispatch_of_action {act : Action n P R}
    (hMatch : (Engine.matchOf action k.buffer.window).span.isEmpty = false ∨
      k.buffer.isExhausted = true)
    (hAct : (rules.rule k.rule).actions[action.toNat]? = some act) :
    rules.dispatch k action =
      ([.acted k.rule (Engine.matchOf action k.buffer.window) k.params],
        rules.enact k.buffer.beginLexeme
          (act (Engine.matchOf action k.buffer.window) k.params)) := by
  have hAccepts : ((Engine.matchOf action k.buffer.window).span.isEmpty &&
      !k.buffer.isExhausted) = false := by
    rcases hMatch with hSpan | hEnd
    · rw [hSpan]
      rfl
    · rw [hEnd]
      exact Bool.and_false _
  simp only [dispatch, hAccepts, hAct]
  rfl

end Dispatch

/-- **The action that is reported is defined**, wherever a scan starts: unless an action was called,
nothing fails for want of one. -/
theorem step_ne_noAction {backend : Backend} {a : Automaton} {entry : StateId} {name : String}
    {actions : Array (Action n P R)} {hooked : Bool}
    (hRule : Rule.ofParts name (Engine.inForm backend a entry) actions hooked =
      .ok (rules.rule k.rule)) (rule : String) (action : ActionId) (count : Nat) :
    rules.step k ≠ ([], .failed (.malformed (.ruleNoAction rule action count)) b) := by
  have hEngine : (rules.rule k.rule).engine = Engine.inForm backend a entry := by
    rw [(Rule.ofParts_eq_ok_iff.mp hRule).1]
  rcases Engine.point_cases backend a entry k.point with ⟨s, hs, hPoint⟩ | hFails
  · rcases Engine.scan_cases hs backend entry k.buffer.window with
      ⟨action', lexeme, pending, hWalks, hRun⟩ | ⟨q, row, lexeme, -, -, -, hRun⟩
    · rw [← hEngine, ← hPoint] at hRun
      obtain ⟨act, hAct⟩ := Rule.exists_action_of_reported hRule hWalks.exists_action
      rw [rules.step_of_matched hRun]
      simp only [dispatch, hAct]
      split <;> simp
    · rw [← hEngine, ← hPoint] at hRun
      rw [rules.step_of_refill hRun, refillInPlace]
      split
      · simp
      · split
        · next hRefill =>
          obtain ⟨causes, rfl⟩ := ScanBuffer.eq_rawInput_of_refill_error hRefill
          simp
        · simp
  · obtain ⟨cause, hError, hNe⟩ := hFails k.buffer.window
    rw [← hEngine] at hError
    rw [rules.step_of_error (Prod.ext hError rfl)]
    simp [hNe]

end RuleSet

/-- **A rule acts on the next match of its engine.** An engine is made for any automaton, in any
form and from any of its states, and a rule is accepted for it. Without a hook, the rule is invoked
on a buffer over any source.

If the search for the next match on the same buffer fails, the invocation fails with the same error
and leaves the same buffer, and no action was called. If the match is empty and the search leaves a
buffer that is not exhausted, the invocation fails, and no action was called. Otherwise exactly one
call is made before the invocation goes on: the action of the number that the match has gets the
match and the parameters, and what it decides is done on the buffer that the search leaves.

Hooked or not, the rule never lacks an action, from whatever point a scan of it starts. -/
theorem invoke_nextMatch {backend : Backend} {a : Automaton} {entry : StateId} {e : Engine}
    (hEngine : Engine.ofAutomaton backend a entry = .ok e) {rules : RuleSet n P R} {i : Fin n}
    {name : String} {actions : Array (Action n P R)} {hooked : Bool}
    (hRule : Rule.ofParts name e actions hooked = .ok (rules.rule i)) :
    (hooked = false → ∀ {ω : Type} (hook : Hook n P R ω) (b : ScanBuffer) (params : P),
      ∃ scans events, events.filterMap Event.call? = [] ∧
        (∀ error b', e.nextMatch b = (.error error, b') →
          ∀ fuel c, rules.invoke hook (fuel + scans + 1) i b params c =
            some (.error error, c.record (events ++ [.failed error b']))) ∧
        ∀ m b', e.nextMatch b = (.ok m, b') →
          (m.span.isEmpty = true → b'.isExhausted = false →
            ∃ b'', b''.beginLexeme = b' ∧ ∀ fuel c,
              rules.invoke hook (fuel + scans + 1) i b params c =
                some (.error (.malformed (.ruleEmptyMatch name m.action m.span.start)),
                  c.record (events ++ [.failed
                    (.malformed (.ruleEmptyMatch name m.action m.span.start)) b'']))) ∧
          (m.span.isEmpty = false ∨ b'.isExhausted = true →
            ∃ act, actions[m.action.toNat]? = some act ∧ ∀ fuel c,
              rules.invoke hook (fuel + scans + 1) i b params c =
                rules.goOn hook fuel (rules.enact b' (act m params))
                  (c.record (events ++ [.acted i m params])))) ∧
      ∀ k b rule action count, k.rule = i →
        rules.step k ≠ ([], .failed (.malformed (.ruleNoAction rule action count)) b) := by
  have hParts := (Rule.ofParts_eq_ok_iff.mp hRule).1
  obtain ⟨-, hForm⟩ := Engine.ofAutomaton_eq_ok_iff.mp hEngine
  refine ⟨?_, ?_⟩
  · rintro rfl ω hook b params
    have hSame : (rules.rule i).engine = e := by rw [hParts]
    have hUnhooked : (rules.rule i).hooked = true → hook = Hook.passThrough := by
      intro hHooked
      rw [hParts] at hHooked
      cases hHooked
    rw [← hSame] at hEngine ⊢
    rcases RuleSet.nextMatch_cases hEngine hUnhooked b params with
      ⟨error, b₁, scans, events, hError, hCalls, hLeads⟩ |
      ⟨action, b₁, refills, events, hMatch, hAction, hFinds⟩
    · rw [hError]
      refine ⟨scans, events, hCalls, ?_, ?_⟩
      · rintro _ _ ⟨⟩ fuel c
        rw [← Course.record_record]
        exact hLeads fuel c
      · rintro _ _ ⟨⟩
    · rw [hMatch]
      refine ⟨refills, events, hFinds.calls_eq, ?_, ?_⟩
      · rintro _ _ ⟨⟩
      · rintro _ _ ⟨⟩
        have hLeads := hFinds.leadsTo
        refine ⟨fun hSpan hMore => ⟨b₁, rfl, fun fuel c => ?_⟩, fun hAccepts => ?_⟩
        · have hName : (rules.rule i).name = name := by rw [hParts]
          rw [RuleSet.dispatch_of_empty hSpan hMore, List.append_nil] at hLeads
          rw [← hName, ← Course.record_record]
          exact hLeads fuel c
        · rw [← hForm] at hRule
          obtain ⟨act, hAct⟩ := Rule.exists_action_of_reported hRule hAction
          rw [RuleSet.dispatch_of_action hAccepts hAct] at hLeads
          rw [hParts] at hAct
          exact ⟨act, hAct, hLeads⟩
  · rintro k b rule action count rfl
    rw [← hForm] at hRule
    exact RuleSet.step_ne_noAction hRule rule action count

/-- The first of two words, behind the refill that brings its end. -/
def afterFirstWord : ScanBuffer :=
  ⟨⟨2, [98, 97], [], [32], false, by decide⟩, .queue [.last [99]], 1, 1, [⟨1, 2, 1, false⟩]⟩

theorem nextMatch_twoWords :
    (Engine.table Automaton.words 0).nextMatch twoWords =
      (.ok ⟨2, ⟨0, 2⟩, [97, 98]⟩, afterFirstWord) := by
  have hDry : (Engine.table Automaton.words 0).run twoWords.beginLexeme.window (.state 0) =
      (.ok (.refill (.state 2)), ⟨0, [], [97], [], false, by decide⟩) := rfl
  have hFound : (Engine.table Automaton.words 0).run ⟨0, [], [97], [98, 32], false, by decide⟩
      (.state 2) = (.ok (.matched 2), ⟨0, [], [98, 97], [32], false, by decide⟩) := rfl
  rw [Engine.nextMatch, Engine.entry, Engine.matchFrom_of_refill_ok hDry rfl rfl]
  exact Engine.matchFrom_of_matched (b := ⟨⟨0, [], [97], [98, 32], false, by decide⟩,
    .queue [.last [99]], 1, 1, [⟨1, 2, 1, false⟩]⟩) hFound

/-- The rule that counts words is handed the first of two, which one refill completes. -/
theorem invoke_nextMatch_twoWords :
    Engine.ofAutomaton .table Automaton.words 0 = .ok (wordCount.rule 0).engine ∧
      Rule.ofParts "words" (wordCount.rule 0).engine (wordCount.rule 0).actions false =
        .ok (wordCount.unhooked.rule 0) ∧
      (wordCount.rule 0).engine.nextMatch twoWords =
        (.ok ⟨2, ⟨0, 2⟩, [97, 98]⟩, afterFirstWord) ∧
      ∃ act scans events, (wordCount.rule 0).actions[(2 : ActionId).toNat]? = some act ∧
        events.filterMap Event.call? = [] ∧ ∀ fuel (c : Course 1 Nat Nat Unit),
          wordCount.unhooked.invoke Hook.passThrough (fuel + scans + 1) 0 twoWords 7 c =
            wordCount.unhooked.goOn Hook.passThrough fuel
              (wordCount.unhooked.enact afterFirstWord (act ⟨2, ⟨0, 2⟩, [97, 98]⟩ 7))
              (c.record (events ++ [.acted 0 ⟨2, ⟨0, 2⟩, [97, 98]⟩ 7])) := by
  have hEngine : Engine.ofAutomaton .table Automaton.words 0 = .ok (wordCount.rule 0).engine := rfl
  have hRule : Rule.ofParts "words" (wordCount.rule 0).engine (wordCount.rule 0).actions false =
      .ok (wordCount.unhooked.rule 0) := by
    rw [RuleSet.rule_unhooked]
    rfl
  obtain ⟨hInvoke, -⟩ := invoke_nextMatch hEngine hRule
  obtain ⟨scans, events, hCalls, -, hFound⟩ :=
    hInvoke rfl (Hook.passThrough : Hook 1 Nat Nat Unit) twoWords 7
  obtain ⟨-, hAccepts⟩ := hFound _ _ nextMatch_twoWords
  obtain ⟨act, hAct, hFollow⟩ := hAccepts (.inl rfl)
  exact ⟨hEngine, hRule, nextMatch_twoWords, act, scans, events, hAct, hCalls, hFollow⟩

end StreamLexer
