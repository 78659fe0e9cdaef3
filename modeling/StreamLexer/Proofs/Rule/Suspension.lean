import StreamLexer.Proofs.Lexing.Causality
import StreamLexer.Proofs.Rule.Entry

/-!
# What a suspended rule hands over

Whenever a hooked rule needs more input, its host is handed a continuation. The host may refill its
buffer, replace what the source has to give, and resume it, at once or later, once or several times;
then the rule may be suspended again. However often that happens to a lexeme, the continuation sums
up all of it: the bytes delivered since the lexeme began are read and kept, the window holds nothing
else to read, and the resume point names the state that these bytes lead to from the entry.

## Main definitions

* `RuleSet.Underway`: how far an invocation has come, and the bytes of its lexeme delivered so far
* `RuleSet.Starts`, `RuleSet.Within`: the invocations that an invocation starts in turn
* `Continuation.Exposes`: what a continuation shows of its lexeme
* `Plan.Resumes`: a plan resumes only continuations of some kind

## Main results

* `RuleSet.Underway.sumsUp`: an invocation on its way sums up what was delivered
* `RuleSet.Underway.exposes`: every suspension shows all of it
* `RuleSet.handedOver_of_follow`: a run hands over only what belongs to invocations that it started
* `suspension_exposes`: what a hook sees
-/

namespace StreamLexer

variable {n : Nat} {P R ω : Type}

/-! ### What a refill delivers -/

namespace ScanBuffer

/-- The bytes that the next refill takes in. -/
def delivery (b : ScanBuffer) : List UInt8 :=
  if b.window.atEnd then []
  else match b.source.supply.1 with
    | .chunk c => c.bytes
    | .failure _ => []

theorem pending_refill (b : ScanBuffer) :
    b.refill.2.window.pending = b.window.pending ++ b.delivery := by
  rcases b.refill_cases with ⟨hEnd, hRefill⟩ | ⟨causes, source, hEnd, hSupply, hRefill⟩ |
    ⟨chunk, source, hEnd, hSupply, hRefill⟩
  · simp [hRefill, delivery, hEnd]
  · simp [hRefill, delivery, hEnd, hSupply, afterAsking, Window.dropSpent]
  · simp [hRefill, delivery, hEnd, hSupply, afterAsking, receive, Window.append, Window.dropSpent]

theorem window_stage (b : ScanBuffer) (chunks : List Chunk) :
    (b.stage chunks).window = b.window := by
  unfold stage
  split <;> rfl

end ScanBuffer

namespace RuleSet

/-- An invocation of a rule on a buffer, on its way to its match: it starts, its scan stops for want
of input, its buffer is refilled, also in vain, or gets something else from its source. The bytes
are those that were delivered since its lexeme began. -/
inductive Underway (rules : RuleSet n P R) (i : Fin n) (b : ScanBuffer) (params : P) :
    List UInt8 → Continuation n P → Prop
  | start : Underway rules i b params b.window.pending (rules.start i b params)
  | stop {bytes k point w} :
      Underway rules i b params bytes k →
      (rules.rule k.rule).engine.run k.buffer.window k.point = (.ok (.refill point), w) →
      Underway rules i b params bytes (k.stopAt point w)
  | refill {bytes k} :
      Underway rules i b params bytes k →
      Underway rules i b params (bytes ++ k.buffer.delivery) { k with buffer := k.buffer.refill.2 }
  | stage {bytes k} (chunks : List Chunk) :
      Underway rules i b params bytes k →
      Underway rules i b params bytes { k with buffer := k.buffer.stage chunks }

end RuleSet

/-! ### What a continuation sums up -/

namespace Continuation

/-- The continuation of an invocation whose lexeme began at `start`, and of which `bytes` were
delivered since then: some of them are read, and lead from the entry to the resume point. -/
structure SumsUp (k : Continuation n P) (backend : Backend) (a : Automaton) (entry : StateId)
    (params : P) (start : Nat) (bytes : List UInt8) : Prop where
  params_eq : k.params = params
  start_eq : k.buffer.window.span.start = start
  bytes_eq : k.buffer.window.text ++ k.buffer.window.pending = bytes
  point : ∃ q, q.toNat < a.size ∧ k.point = backend.point q ∧
    a.stepAll? entry k.buffer.window.text = some q

/-- The continuation of an invocation whose lexeme began at `start` shows all bytes delivered since
then, as its lexeme, and names the dispatch state that they lead to from the entry. -/
structure Exposes (k : Continuation n P) (backend : Backend) (a : Automaton) (entry : StateId)
    (params : P) (start : Nat) (bytes : List UInt8) : Prop where
  params_eq : k.params = params
  start_eq : k.buffer.window.span.start = start
  text_eq : k.buffer.window.text = bytes
  pending_eq : k.buffer.window.pending = []
  atEnd_eq : k.buffer.window.atEnd = false
  point : ∃ q row, k.point = backend.point q ∧ a.stepAll? entry k.buffer.window.text = some q ∧
    a.state? q = some (.dispatch row)

variable {k : Continuation n P} {backend : Backend} {a : Automaton} {entry : StateId} {params : P}
  {start : Nat} {bytes : List UInt8}

theorem Exposes.sumsUp (h : k.Exposes backend a entry params start bytes) :
    k.SumsUp backend a entry params start bytes where
  params_eq := h.params_eq
  start_eq := h.start_eq
  bytes_eq := by rw [h.pending_eq, List.append_nil, h.text_eq]
  point := by
    obtain ⟨q, row, hPoint, hTo, hRow⟩ := h.point
    exact ⟨q, Automaton.lt_size_of_state? hRow, hPoint, hTo⟩

/-- **Where a scan stops for want of input, it has read all.** -/
theorem SumsUp.stopAt (h : k.SumsUp backend a entry params start bytes) {e : Engine}
    (hForm : Engine.inForm backend a entry = e) {point : ResumePoint} {w : Window}
    (hRun : e.run k.buffer.window k.point = (.ok (.refill point), w)) :
    (k.stopAt point w).Exposes backend a entry params start bytes := by
  obtain ⟨q, hq, hPoint, hTo⟩ := h.point
  rw [← hForm, hPoint] at hRun
  rcases Engine.scan_cases hq backend entry k.buffer.window with
    ⟨action, lexeme, pending, -, hMatched⟩ | ⟨q', row, lexeme, hEnd, hRow, hWalks, hDry⟩
  · cases hMatched.symm.trans hRun
  · cases hDry.symm.trans hRun
    obtain ⟨rfl, -, hOn, -⟩ := hWalks.exists_stretch_of_refill
    have hText : (k.buffer.window.reached (k.buffer.window.pending.reverse ++
        k.buffer.window.lexeme) []).text = bytes := by
      rw [← h.bytes_eq]
      simp [Window.text, Window.reached]
    refine ⟨h.params_eq, h.start_eq, hText, rfl, hEnd, q', row, rfl, ?_, hRow⟩
    show a.stepAll? entry (k.buffer.window.reached _ []).text = some q'
    rw [hText, ← h.bytes_eq, Automaton.stepAll?_append, hTo]
    exact hOn

/-- A refill puts what it delivers behind what waits. -/
theorem SumsUp.refill (h : k.SumsUp backend a entry params start bytes) :
    ({ k with buffer := k.buffer.refill.2 } : Continuation n P).SumsUp backend a entry params start
      (bytes ++ k.buffer.delivery) := by
  have hText : k.buffer.refill.2.window.text = k.buffer.window.text :=
    congrArg List.reverse (ScanBuffer.lexeme_of_refill (Prod.eta k.buffer.refill).symm)
  have hStart : k.buffer.refill.2.window.lexemeStart = k.buffer.window.lexemeStart :=
    ScanBuffer.lexemeStart_of_refill (Prod.eta k.buffer.refill).symm
  refine ⟨h.params_eq, hStart.trans h.start_eq, ?_, ?_⟩
  · rw [hText, ScanBuffer.pending_refill, ← List.append_assoc, h.bytes_eq]
  · rw [hText]
    exact h.point

end Continuation

namespace RuleSet

/-- The invocations that the invocation of rule `j` on `b` starts: itself, and the ones that the
actions of such an invocation decide on. -/
inductive Starts (rules : RuleSet n P R) (j : Fin n) (b : ScanBuffer) (params : P) :
    Fin n → ScanBuffer → P → Prop
  | self : Starts rules j b params j b params
  | invoked {i b' params' bytes k m i' b'' params''} :
      Starts rules j b params i b' params' → rules.Underway i b' params' bytes k →
      rules.step k = ([.acted k.rule m k.params], .next (rules.start i' b'' params'')) →
      Starts rules j b params i' b'' params''

/-- The continuation belongs to an invocation that the invocation of rule `j` on `b` starts. -/
def Within (rules : RuleSet n P R) (j : Fin n) (b : ScanBuffer) (params : P)
    (k : Continuation n P) : Prop :=
  ∃ i b' params' bytes, rules.Starts j b params i b' params' ∧ rules.Underway i b' params' bytes k

/-- The continuation was handed over by a step of an invocation that the invocation of rule `j` on
`b` starts: of rule `i`, on `b'`, with `bytes` delivered since its lexeme began. -/
def HandsOver (rules : RuleSet n P R) (j : Fin n) (b : ScanBuffer) (params : P) (i : Fin n)
    (b' : ScanBuffer) (params' : P) (bytes : List UInt8) (k : Continuation n P) : Prop :=
  ∃ k', rules.Starts j b params i b' params' ∧ rules.Underway i b' params' bytes k' ∧
    rules.step k' = ([], .suspended k)

/-- The continuation was handed over by an invocation that the invocation of rule `j` on `b`
starts. -/
def Handed (rules : RuleSet n P R) (j : Fin n) (b : ScanBuffer) (params : P)
    (k : Continuation n P) : Prop :=
  ∃ i b' params' bytes, rules.HandsOver j b params i b' params' bytes k

variable {rules : RuleSet n P R} {i j : Fin n} {b b' : ScanBuffer} {params : P}
  {bytes : List UInt8} {k k' : Continuation n P} {events : List (Event n P R)}

/-! ### One invocation -/

section Invocation

variable {backend : Backend} {a : Automaton} {entry : StateId}

theorem Underway.rule_eq (h : rules.Underway i b params bytes k) : k.rule = i := by
  induction h with
  | start => rfl
  | stop _ _ ih => exact ih
  | refill _ ih => exact ih
  | stage _ _ ih => exact ih

/-- **An invocation on its way sums up what was delivered** since its lexeme began. -/
theorem Underway.sumsUp (hEngine : Engine.ofAutomaton backend a entry = .ok (rules.rule i).engine)
    (h : rules.Underway i b params bytes k) :
    k.SumsUp backend a entry params b.window.position bytes := by
  obtain ⟨hEntry, hForm⟩ := Engine.ofAutomaton_eq_ok_iff.mp hEngine
  induction h with
  | start =>
    refine ⟨rfl, rfl, rfl, entry, hEntry, ?_, rfl⟩
    rw [RuleSet.start, ← hForm, Engine.entry_inForm]
  | stop h hRun ih =>
    rw [h.rule_eq] at hRun
    exact (ih.stopAt hForm hRun).sumsUp
  | refill _ ih => exact ih.refill
  | @stage bytes k chunks _ ih =>
    obtain ⟨hParams, hStart, hBytes, hPoint⟩ := ih
    rw [← k.buffer.window_stage chunks] at hStart hBytes hPoint
    exact ⟨hParams, hStart, hBytes, hPoint⟩

/-- **Every suspension shows all that was delivered** since the lexeme began. -/
theorem Underway.exposes (hEngine : Engine.ofAutomaton backend a entry = .ok (rules.rule i).engine)
    (h : rules.Underway i b params bytes k) (hStep : rules.step k = (events, .suspended k')) :
    k'.Exposes backend a entry params b.window.position bytes := by
  obtain ⟨-, -, point, w, hRun, rfl⟩ := exists_run_of_suspended hStep
  obtain ⟨-, hForm⟩ := Engine.ofAutomaton_eq_ok_iff.mp hEngine
  rw [h.rule_eq] at hRun
  exact (h.sumsUp hEngine).stopAt hForm hRun

end Invocation

end RuleSet

/-! ### A run of invocations -/

/-- Whatever comes of what it resumes, the plan resumes only continuations of some kind. -/
inductive Plan.Resumes (p : Continuation n P → Prop) : Plan n P R → Prop
  | answer {reply : Except LexError R} : Resumes p (.answer reply)
  | resume {k : Continuation n P} {next : Except LexError R → Plan n P R} :
      p k → (∀ reply, Resumes p (next reply)) → Resumes p (.resume k next)

/-- What every resumption keeps, a plan keeps. -/
theorem Plan.Resumes.carryOut_induction {p : Continuation n P → Prop}
    {q : Course n P R ω → Prop} {resume : Continuation n P → Course n P R ω → Reply n P R ω}
    (hResume : ∀ {k c reply c'}, p k → q c → resume k c = some (reply, c') → q c')
    {plan : Plan n P R} (h : plan.Resumes p) {c c' : Course n P R ω} {reply : Except LexError R}
    (hc : q c) (hCarry : plan.carryOut resume c = some (reply, c')) : q c' := by
  induction h generalizing c with
  | answer =>
    cases hCarry
    exact hc
  | @resume k next hk _ ih =>
    rw [Plan.carryOut] at hCarry
    split at hCarry
    · cases hCarry
    · next hOne => exact ih _ (hResume hk hc hOne) hCarry

/-- All continuations that were handed over so far are of some kind. -/
def Course.HandedOver (c : Course n P R ω) (p : Continuation n P → Prop) : Prop :=
  ∀ k, .suspended k ∈ c.events → p k

theorem Course.HandedOver.record {c : Course n P R ω} {p : Continuation n P → Prop}
    (h : c.HandedOver p) {events : List (Event n P R)} (hNone : ∀ k, .suspended k ∉ events) :
    (c.record events).HandedOver p := by
  intro k hMem
  rcases List.mem_append.mp hMem with hNew | hOld
  · exact absurd (List.mem_reverse.mp hNew) (hNone k)
  · exact h k hOld

theorem Course.HandedOver.suspend {c : Course n P R ω} {p : Continuation n P → Prop}
    (h : c.HandedOver p) {k : Continuation n P} (hk : p k) (host : ω) :
    (c.suspend k host).HandedOver p := by
  intro k' hMem
  rcases List.mem_cons.mp hMem with hNew | hOld
  · cases hNew
    exact hk
  · exact h k' hOld

namespace RuleSet

variable {rules : RuleSet n P R} {i j : Fin n} {b b' : ScanBuffer} {params : P}
  {bytes : List UInt8} {k k' : Continuation n P} {events : List (Event n P R)}

theorem suspended_notMem_refillEvents (r : Option Refill) :
    (.suspended k : Event n P R) ∉ refillEvents r := by
  cases r <;> simp [refillEvents]

theorem suspended_notMem_step (rules : RuleSet n P R) (k k' : Continuation n P) :
    .suspended k' ∉ (rules.step k).1 := by
  rcases rules.step_cases k with ⟨error, b, hFails⟩ | ⟨m, b, decision, hActs⟩ |
    ⟨point, w, -, hNeeds⟩
  · simp [hFails]
  · simp [hActs]
  · rw [hNeeds, refillInPlace]
    split
    · simp
    · split
      · simp
      · exact suspended_notMem_refillEvents _

theorem Within.self (rules : RuleSet n P R) (j : Fin n) (b : ScanBuffer) (params : P) :
    rules.Within j b params (rules.start j b params) :=
  ⟨j, b, params, _, .self, .start⟩

theorem Within.refill (h : rules.Within j b params k) :
    rules.Within j b params { k with buffer := k.buffer.refill.2 } := by
  obtain ⟨i, b', params', bytes, hStarts, hUnderway⟩ := h
  exact ⟨i, b', params', _, hStarts, hUnderway.refill⟩

/-- **A run goes on within the invocations that it starts.** -/
theorem Within.next (h : rules.Within j b params k) (hStep : rules.step k = (events, .next k')) :
    rules.Within j b params k' := by
  obtain ⟨i, b', params', bytes, hStarts, hUnderway⟩ := h
  rcases rules.step_cases k with ⟨error, b'', hFails⟩ | ⟨m, b'', decision, hActs⟩ |
    ⟨point, w, hRun, hNeeds⟩
  · cases hFails.symm.trans hStep
  · -- an action that goes on
    cases decision with
    | finish => cases hActs.symm.trans hStep
    | fail => cases hActs.symm.trans hStep
    | invoke i' params'' =>
      cases hActs.symm.trans hStep
      exact ⟨i', b'', params'', _, hStarts.invoked hUnderway hActs, .start⟩
  · rw [hNeeds] at hStep
    split at hStep
    · cases hStep
    · -- a refill in place
      rw [refillInPlace] at hStep
      split at hStep
      · cases hStep
      · next r b'' hRefill =>
        cases hStep
        have hNext := (hUnderway.stop hRun).refill
        rw [hRefill] at hNext
        exact ⟨i, b', params', _, hStarts, hNext⟩

theorem Within.suspended (h : rules.Within j b params k)
    (hStep : rules.step k = (events, .suspended k')) :
    rules.Within j b params k' ∧ rules.Handed j b params k' := by
  obtain ⟨rfl, -, point, w, hRun, rfl⟩ := exists_run_of_suspended hStep
  obtain ⟨i, b', params', bytes, hStarts, hUnderway⟩ := h
  exact ⟨⟨i, b', params', bytes, hStarts, hUnderway.stop hRun⟩,
    i, b', params', bytes, k, hStarts, hUnderway, hStep⟩

/-- What is handed over after a resumption is handed over after its refill. -/
theorem handedOver_of_resumeBy
    {follow : Continuation n P → Course n P R ω → Reply n P R ω} {p q : Continuation n P → Prop}
    (hFollow : ∀ k c c' reply, q k → c.HandedOver p → follow k c = some (reply, c') →
      c'.HandedOver p)
    (hk : q { k with buffer := k.buffer.refill.2 }) {c c' : Course n P R ω}
    {reply : Except LexError R} (hc : c.HandedOver p)
    (h : k.resumeBy follow c = some (reply, c')) : c'.HandedOver p := by
  rw [Continuation.resumeBy] at h
  rcases hRefill : k.buffer.refill with ⟨error | r, b⟩
  · rw [hRefill] at h
    cases h
    exact hc.record (by simp)
  · rw [hRefill] at h hk
    refine hFollow _ _ _ _ hk (hc.record fun k' => ?_) h
    simp [suspended_notMem_refillEvents]

/-- **A run hands over only continuations of invocations that it started**, if its host resumes no
others. -/
theorem handedOver_of_follow {hook : Hook n P R ω}
    (hHook : ∀ k host, rules.Within j b params k →
      (hook k host).1.Resumes (rules.Within j b params))
    {fuel : Nat} (hk : rules.Within j b params k) {c c' : Course n P R ω}
    {reply : Except LexError R} (hc : c.HandedOver (rules.Handed j b params))
    (h : rules.follow hook fuel k c = some (reply, c')) :
    c'.HandedOver (rules.Handed j b params) := by
  induction fuel generalizing k c reply c' with
  | zero => cases h
  | succ fuel ih =>
    have hRecord := hc.record (rules.suspended_notMem_step k)
    rw [follow_eq_goOn] at h
    rcases hStep : rules.step k with ⟨events, k' | ⟨result, b'⟩ | ⟨error, b'⟩ | k'⟩
    · rw [hStep] at h hRecord
      exact ih (hk.next hStep) hRecord h
    · rw [hStep] at h hRecord
      cases h
      exact hRecord.record (by simp)
    · rw [hStep] at h hRecord
      cases h
      exact hRecord.record (by simp)
    · rw [hStep] at h hRecord
      obtain ⟨hWithin, hHands⟩ := hk.suspended hStep
      refine (hHook k' _ hWithin).carryOut_induction
        (q := fun c => c.HandedOver (rules.Handed j b params)) ?_ (hRecord.suspend hHands _) h
      intro k c reply c' hk hc hResume
      refine handedOver_of_resumeBy (q := rules.Within j b params) ?_ hk.refill hc hResume
      exact fun k c c' reply hk hc h => ih hk hc h

end RuleSet

/-- **What a hook sees.** A rule runs an automaton in either form, and is invoked on a buffer over
any source, whose next byte stands at `p`. However often it was suspended, refilled, given other
chunks and resumed since then: when it is suspended, its continuation carries the parameters of the
invocation, the span of its buffer starts at `p`, its lexeme is all bytes from `p` on that were
delivered so far, no byte waits behind them, the end of the stream is not in sight, and its resume
point names the state that the lexeme leads to from the entry, which is a dispatch state.

This is what is handed over in every run. If a host resumes only continuations of invocations that
the run has started, then whatever rule is invoked first, and whichever continuation is resumed
later, every continuation of the rule that is handed over on the way is of that kind. -/
theorem suspension_exposes {backend : Backend} {a : Automaton} {entry : StateId}
    {rules : RuleSet n P R} {i : Fin n}
    (hEngine : Engine.ofAutomaton backend a entry = .ok (rules.rule i).engine) :
    (∀ b params bytes k events k', rules.Underway i b params bytes k →
      rules.step k = (events, .suspended k') →
        k'.Exposes backend a entry params b.window.position bytes) ∧
    ∀ {ω : Type} (hook : Hook n P R ω) (j : Fin n) (b : ScanBuffer) (params : P),
      (∀ k host, rules.Within j b params k →
        (hook k host).1.Resumes (rules.Within j b params)) →
      ∀ fuel host reply c,
        (rules.invoke hook fuel j b params (.ofHost host) = some (reply, c) ∨
          ∃ k, rules.Within j b params k ∧
            rules.resume hook fuel k (.ofHost host) = some (reply, c)) →
        ∀ k, .suspended k ∈ c.events → k.rule = i →
          ∃ b' params' bytes, rules.HandsOver j b params i b' params' bytes k ∧
            k.Exposes backend a entry params' b'.window.position bytes := by
  refine ⟨fun b params bytes k events k' hUnderway hStep => hUnderway.exposes hEngine hStep, ?_⟩
  intro ω hook j b params hHook fuel host reply c hRun k hMem hRule
  have hNone : (Course.ofHost host : Course n P R ω).HandedOver (rules.Handed j b params) := by
    intro k hMem
    cases hMem
  have hHanded : c.HandedOver (rules.Handed j b params) := by
    rcases hRun with hInvoke | ⟨k₀, hWithin, hResume⟩
    · exact RuleSet.handedOver_of_follow hHook (.self rules j b params) hNone hInvoke
    · refine RuleSet.handedOver_of_resumeBy (q := rules.Within j b params) ?_ hWithin.refill hNone
        hResume
      exact fun k c c' reply hk hc h => RuleSet.handedOver_of_follow hHook hk hc h
  obtain ⟨i', b', params', bytes, k', hStarts, hUnderway, hStep⟩ := hHanded k hMem
  obtain ⟨-, -, point, w, -, rfl⟩ := RuleSet.exists_run_of_suspended hStep
  obtain rfl : i' = i := hUnderway.rule_eq.symm.trans hRule
  exact ⟨b', params', bytes, ⟨k', hStarts, hUnderway, hStep⟩, hUnderway.exposes hEngine hStep⟩

/-- A word in three parts, of which the second is late. -/
def wordInParts : ScanBuffer :=
  .ofSource [97] (.script [.failure ["late"], .chunk (.more [98]), .chunk (.last [99])] .finish)

/-- The word is suspended a second time after two refills, of which one fails. What any host that
resumes at once is handed shows the lexeme that it belongs to. -/
theorem suspension_exposes_wordInParts :
    Engine.ofAutomaton .table Automaton.words 0 = .ok (wordCount.rule 0).engine ∧
      (∃ k k', wordCount.Underway 0 wordInParts 7 [97, 98] k ∧
        wordCount.step k = ([], .suspended k') ∧ k'.point = .state 2 ∧
        k'.Exposes .table Automaton.words 0 7 0 [97, 98]) ∧
      (∀ (k : Continuation 1 Nat) (host : Unit), wordCount.Within 0 twoWords 7 k →
        (Hook.passThrough k host : Plan 1 Nat Nat × Unit).1.Resumes
          (wordCount.Within 0 twoWords 7)) ∧
      ∃ reply c k, wordCount.invoke Hook.passThrough 12 0 twoWords 7 (.ofHost ()) =
          some (reply, c) ∧ .suspended k ∈ c.events ∧
        ∃ b params bytes, wordCount.HandsOver 0 twoWords 7 0 b params bytes k ∧
          k.Exposes .table Automaton.words 0 params b.window.position bytes := by
  have hEngine : Engine.ofAutomaton .table Automaton.words 0 = .ok (wordCount.rule 0).engine := rfl
  obtain ⟨hOne, hRun⟩ := suspension_exposes hEngine
  refine ⟨hEngine, ?_, fun k host hk => .resume hk fun _ => .answer, ?_⟩
  · have hDry : (wordCount.rule 0).engine.run wordInParts.beginLexeme.window (.state 0) =
        (.ok (.refill (.state 2)), ⟨0, [], [97], [], false, by decide⟩) := rfl
    have hUnderway : wordCount.Underway 0 wordInParts 7 [97, 98] _ :=
      ((RuleSet.Underway.start.stop hDry).refill).refill
    exact ⟨_, ⟨0, .state 2, ⟨⟨0, [], [98, 97], [], false, by decide⟩,
      .script [.chunk (.last [99])] .finish, 1, 2, [⟨1, 1, 1, false⟩]⟩, 7⟩, hUnderway, rfl, rfl,
      hOne _ _ _ _ _ _ hUnderway rfl⟩
  · have hSome : ((wordCount.invoke Hook.passThrough 12 0 twoWords 7 (.ofHost ())).any
        fun r => r.2.events.any Event.isSuspension) = true := by decide +kernel
    rcases hInvoke : wordCount.invoke Hook.passThrough 12 0 twoWords 7 (.ofHost ()) with
      _ | ⟨reply, c⟩
    · rw [hInvoke] at hSome
      cases hSome
    · rw [hInvoke] at hSome
      obtain ⟨event, hMem, hSuspension⟩ := List.any_eq_true.mp hSome
      cases event with
      | suspended k =>
        obtain ⟨b, params, bytes, hHands, hExposes⟩ :=
          hRun (Hook.passThrough : Hook 1 Nat Nat Unit) 0 twoWords 7
            (fun k host hk => .resume hk fun _ => .answer) 12 () reply c (.inl hInvoke) k hMem
            (Subsingleton.elim _ _)
        exact ⟨reply, c, k, rfl, hMem, b, params, bytes, hHands, hExposes⟩
      | _ => cases hSuspension

end StreamLexer
