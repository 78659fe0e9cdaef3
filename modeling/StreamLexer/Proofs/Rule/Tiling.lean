import Mathlib.Data.List.Chain
import StreamLexer.Proofs.Rule.Lexeme

/-!
# The calls of an invocation tile the stream

The actions that an invocation calls, one after the other and whichever rules they belong to, are
handed matches that lie side by side. A rule starts its lexeme where the one before it ended, and is
refused an empty match unless nothing is left. So every call before the end of the stream takes a
byte at least, and no cycle of rules goes on for ever there. What is shown about the calls holds of
those that any number of scans has brought, whether or not the invocation ends.

## Main definitions

* `RuleSet.callsWithin`: the calls of so many scans
* `RuleSet.ResumesAtOnce`: a host that resumes whatever is suspended
* `SideBySide`, `Progress`: matches that lie side by side, and what follows for them

## Main results

* `RuleSet.calls_of_follow`: an invocation that ends has made the calls of its scans
* `RuleSet.Awaits.sideBySide`: the calls from a match on
* `invoke_progress`: the calls of an invocation tile what remains of the stream
-/

namespace StreamLexer

variable {n : Nat} {P R ω : Type}

/-! ### Matches side by side -/

/-- Matches that lie side by side in `bytes`, which stand at `offset`, and of which none is empty
unless nothing is left. They need not cover the bytes to the end. -/
inductive SideBySide : Nat → List UInt8 → List Match → Prop
  | nil {offset bytes} : SideBySide offset bytes []
  | cons {offset m left ms} :
      m.span = ⟨offset, offset + m.text.length⟩ → (m.text = [] → left = []) →
      SideBySide (offset + m.text.length) left ms → SideBySide offset (m.text ++ left) (m :: ms)

/-- Matches make progress through `bytes`, which stand at `offset`. -/
structure Progress (offset : Nat) (bytes : List UInt8) (ms : List Match) : Prop where
  start_eq : ∀ m, ms.head? = some m → m.span.start = offset
  /-- Every match starts where the one before it ends. -/
  chain : ms.IsChain fun m m' => m'.span.start = m.span.stop
  span_le : ∀ m ∈ ms, offset ≤ m.span.start ∧ m.span.start ≤ m.span.stop ∧
    m.span.stop ≤ offset + bytes.length
  /-- The text of a match is what the stream has at its span. -/
  text_eq : ∀ m ∈ ms, m.text = (bytes.drop (m.span.start - offset)).take m.span.length
  /-- An empty match stands at the end. -/
  start_of_empty : ∀ m ∈ ms, m.text = [] → m.span.start = offset + bytes.length
  /-- Before the end there are at most as many matches as bytes. -/
  countP_le : ms.countP (fun m => m.span.start < offset + bytes.length) ≤ bytes.length

/-- **Matches that lie side by side make progress.** -/
theorem SideBySide.progress {offset : Nat} {bytes : List UInt8} {ms : List Match}
    (h : SideBySide offset bytes ms) : Progress offset bytes ms := by
  induction h with
  | nil =>
    exact
      { start_eq := by simp
        chain := List.isChain_nil
        span_le := by simp
        text_eq := by simp
        start_of_empty := by simp
        countP_le := Nat.zero_le _ }
  | @cons offset m left ms hSpan hEmpty _ ih =>
    have hEnd : offset + (m.text ++ left).length = offset + m.text.length + left.length := by
      rw [List.length_append, Nat.add_assoc]
    have hStop : m.span.stop = offset + m.text.length := by rw [hSpan]
    refine
      { start_eq := ?_
        chain := List.isChain_cons.mpr ⟨fun m' hHead => ?_, ih.chain⟩
        span_le := List.forall_mem_cons.mpr ⟨?_, fun m' hm' => ?_⟩
        text_eq := List.forall_mem_cons.mpr ⟨?_, fun m' hm' => ?_⟩
        start_of_empty := List.forall_mem_cons.mpr ⟨fun hText => ?_, fun m' hm' hText => ?_⟩
        countP_le := ?_ }
    · rintro _ ⟨⟩
      rw [hSpan]
    · rw [ih.start_eq m' hHead, hStop]
    · rw [hEnd, hSpan]
      exact ⟨Nat.le_refl _, Nat.le_add_right _ _, Nat.le_add_right _ _⟩
    · rw [hEnd]
      obtain ⟨hStart, hOrder, hLast⟩ := ih.span_le m' hm'
      exact ⟨Nat.le_trans (Nat.le_add_right _ _) hStart, hOrder, hLast⟩
    · simp [hSpan, Span.length]
    · obtain ⟨hStart, -, -⟩ := ih.span_le m' hm'
      have hDrop : m'.span.start - offset =
          m.text.length + (m'.span.start - (offset + m.text.length)) := by omega
      rw [hDrop, ← List.drop_drop, List.drop_left]
      exact ih.text_eq m' hm'
    · simp [hSpan, hText, hEmpty hText]
    · rw [hEnd]
      exact ih.start_of_empty m' hm' hText
    · have hCount := ih.countP_le
      rw [← hEnd] at hCount
      have hLength : (m.text ++ left).length = m.text.length + left.length := List.length_append
      rw [List.countP_cons]
      by_cases hText : m.text = []
      · have hLast : ¬ m.span.start < offset + (m.text ++ left).length := by
          simp [hSpan, hText, hEmpty hText]
        rw [if_neg (by simpa using hLast)]
        omega
      · have hPos : 0 < m.text.length := List.length_pos_iff.mpr hText
        split <;> omega

/-! ### The calls of so many scans -/

namespace RuleSet

/-- The calls that an invocation makes in so many scans, if whatever is suspended is resumed at
once. -/
def callsWithin (rules : RuleSet n P R) : Nat → Continuation n P → List (Fin n × Match × P)
  | 0, _ => []
  | fuel + 1, k =>
    match rules.step k with
    | (events, .next k) => events.filterMap Event.call? ++ callsWithin rules fuel k
    | (_, .suspended k) =>
      match k.buffer.refill with
      | (.ok _, b) => callsWithin rules fuel { k with buffer := b }
      | (.error _, _) => []
    | (events, _) => events.filterMap Event.call?

/-- The host resumes whatever rule is suspended at once. Where no rule is hooked, every host does. -/
def ResumesAtOnce (rules : RuleSet n P R) (hook : Hook n P R ω) : Prop :=
  ∀ k host, (rules.rule k.rule).hooked = true → (hook k host).1 = .passThrough k

variable {rules : RuleSet n P R} {k k' : Continuation n P} {found : Match} {left : List UInt8}
  {exhausted : Bool} {fuel : Nat}

theorem callsWithin_of_next {events : List (Event n P R)} (h : rules.step k = (events, .next k')) :
    rules.callsWithin (fuel + 1) k =
      events.filterMap Event.call? ++ rules.callsWithin fuel k' := by
  rw [callsWithin, h]

/-- Only a hooked rule is suspended, and nothing happens before. -/
theorem hooked_of_suspended {events : List (Event n P R)}
    (h : rules.step k = (events, .suspended k')) :
    events = [] ∧ (rules.rule k'.rule).hooked = true := by
  obtain ⟨rfl, hHooked, point, w, -, rfl⟩ := exists_run_of_suspended h
  exact ⟨rfl, hHooked⟩

/-- **An invocation that ends has made the calls of its scans**, if its host resumes at once. -/
theorem calls_of_follow {hook : Hook n P R ω} (hHook : rules.ResumesAtOnce hook)
    {c c' : Course n P R ω} {reply : Except LexError R}
    (h : rules.follow hook fuel k c = some (reply, c')) :
    c'.calls = c.calls ++ rules.callsWithin fuel k := by
  induction fuel generalizing k c with
  | zero => cases h
  | succ fuel ih =>
    rw [follow_eq_goOn] at h
    rcases hStep : rules.step k with ⟨events, k' | ⟨result, b⟩ | ⟨error, b⟩ | k'⟩
    · rw [hStep] at h
      have hCalls := ih h
      rw [Course.calls_record, List.append_assoc] at hCalls
      rw [hCalls, callsWithin_of_next hStep]
    · rw [hStep] at h
      cases h
      rw [callsWithin, hStep]
      simp [Course.calls_record, Event.call?]
    · rw [hStep] at h
      cases h
      rw [callsWithin, hStep]
      simp [Course.calls_record, Event.call?]
    · obtain ⟨rfl, hHooked⟩ := hooked_of_suspended hStep
      rw [hStep, goOn, hHook k' _ hHooked, Plan.carryOut_passThrough, Continuation.resumeBy] at h
      rw [callsWithin, hStep]
      dsimp only
      rcases hRefill : k'.buffer.refill with ⟨error | r, b⟩
      · rw [hRefill] at h
        cases h
        simp [Course.calls_record, Course.calls_suspend, Event.call?]
      · rw [hRefill] at h
        have hCalls := ih h
        rw [Course.calls_record, call?_resumed, List.append_nil, Course.calls_suspend] at hCalls
        simpa [Course.calls_record] using hCalls

/-! ### The calls from a match on -/

/-- Every rule runs an automaton from one of its states. -/
def Runs (rules : RuleSet n P R) : Prop :=
  ∀ i : Fin n, ∃ backend a entry, Engine.ofAutomaton backend a entry = .ok (rules.rule i).engine

/-- The calls of so many scans after a decision. -/
def callsAfter (rules : RuleSet n P R) (fuel : Nat) (b : ScanBuffer) :
    Decision n P R → List (Fin n × Match × P)
  | .invoke j params => rules.callsWithin fuel (rules.start j b params)
  | .finish _ => []
  | .fail _ => []

theorem callsWithin_of_enact {events : List (Event n P R)} {b : ScanBuffer}
    {decision : Decision n P R} (h : rules.step k = (events, rules.enact b decision)) :
    rules.callsWithin (fuel + 1) k =
      events.filterMap Event.call? ++ rules.callsAfter fuel b decision := by
  cases decision with
  | finish result =>
    rw [callsWithin, h]
    exact (List.append_nil _).symm
  | fail error =>
    rw [callsWithin, h]
    exact (List.append_nil _).symm
  | invoke j params => exact callsWithin_of_next h

/-- A refill in place and a suspension that is resumed at once lead to the same calls. -/
theorem callsWithin_of_refill {r : Option Refill} {b : ScanBuffer}
    (hRefill : k'.buffer.refill = (.ok r, b))
    (hStep : rules.step k =
      if (rules.rule k.rule).hooked then ([], .suspended k') else refillInPlace k') :
    rules.callsWithin (fuel + 1) k = rules.callsWithin fuel { k' with buffer := b } := by
  by_cases hHooked : (rules.rule k.rule).hooked = true
  · rw [if_pos hHooked] at hStep
    rw [callsWithin, hStep]
    dsimp only
    rw [hRefill]
  · rw [if_neg hHooked, refillInPlace, hRefill] at hStep
    rw [callsWithin_of_next hStep, call?_refillEvents, List.nil_append]

/-- A rule refuses a match, or calls an action; it calls none for an empty match unless the stream
is at its end. -/
theorem verdict_cases (rules : RuleSet n P R) (i : Fin n) (m : Match) (exhausted : Bool)
    (params : P) :
    (∃ error, rules.verdict i m exhausted params = ([], .fail error)) ∨
      (m.span.isEmpty = true → exhausted = true) ∧
        ∃ decision, rules.verdict i m exhausted params = ([(i, m, params)], decision) := by
  unfold verdict
  dsimp only
  split
  · exact .inl ⟨_, rfl⟩
  · next hAccepts =>
    split
    · exact .inl ⟨_, rfl⟩
    · refine .inr ⟨fun hSpan => ?_, _, rfl⟩
      simpa [hSpan] using hAccepts

theorem Awaits.eq_nil (h : rules.Awaits k found left exhausted) (hEnd : exhausted = true) :
    left = [] := by
  obtain ⟨-, -, -, hExhausted⟩ := h
  exact (hExhausted.mp hEnd).1

/-- **The calls from a match on are handed matches that lie side by side.** -/
theorem Awaits.sideBySide (hRules : rules.Runs) (h : rules.Awaits k found left exhausted)
    {offset : Nat} (hSpan : found.span = ⟨offset, offset + found.text.length⟩) (fuel : Nat) :
    SideBySide offset (found.text ++ left)
      ((rules.callsWithin fuel k).map fun call => call.2.1) := by
  induction fuel generalizing k found left exhausted offset with
  | zero => exact .nil
  | succ fuel ih =>
    rcases h.step_cases with ⟨events, b, hStep, hCalls, hLeft, hStop⟩ |
      ⟨k', r, b, -, -, hRefill, -, hNext, hStep⟩
    · rw [callsWithin_of_enact hStep, hCalls]
      rcases rules.verdict_cases k.rule found exhausted k.params with
        ⟨error, hVerdict⟩ | ⟨hEmpty, decision, hVerdict⟩
      · rw [hVerdict]
        exact .nil
      · have hLast : found.text = [] → left = [] := by
          intro hText
          refine h.eq_nil (hEmpty ?_)
          simp [hSpan, hText, Span.isEmpty]
        rw [hVerdict]
        refine .cons hSpan hLast ?_
        cases decision with
        | finish result => exact .nil
        | fail error => exact .nil
        | invoke j params =>
          obtain ⟨backend, a, entry, hEngine⟩ := hRules j
          obtain ⟨found', left', exhausted', hFinds, -, hAwaits⟩ :=
            exists_awaits hEngine hLeft params
          rw [hStop, hSpan] at hFinds
          rw [← hFinds.text_append_left]
          exact ih hAwaits hFinds.span_eq
    · rw [callsWithin_of_refill hRefill hStep]
      exact ih hNext hSpan

end RuleSet

/-- **The calls of an invocation tile what remains of the stream.** Rules run automata in any form
and from any of their states, terminals included, and may be hooked; their buffer takes in a queue
of chunks, whatever it holds already. However many scans an invocation is followed for, the actions
that it calls, of whichever rules, make progress through the bytes that remained at its start: the
first match starts there, each other one where the one before it ended, each text is what the stream
has at its span, a match is empty only at the end, and before the end there are at most as many calls
as bytes. These are the calls of every invocation that ends, without hooks or with a host that
resumes at once. -/
theorem invoke_progress {rules : RuleSet n P R} (hRules : rules.Runs) {b : ScanBuffer}
    {chunks : List Chunk} (hSource : b.source = .queue chunks) {rest : List UInt8}
    (hRest : rest = b.window.pending ++ if b.window.atEnd then [] else Chunk.delivered chunks)
    (i : Fin n) (params : P) (fuel : Nat) :
    Progress b.window.position rest
        ((rules.callsWithin fuel (rules.start i b params)).map fun call => call.2.1) ∧
      ∀ (ω : Type) (hook : Hook n P R ω) (host : ω) (reply : Except LexError R)
        (c : Course n P R ω), rules.ResumesAtOnce hook →
          rules.invoke hook fuel i b params (.ofHost host) = some (reply, c) →
            c.calls = rules.callsWithin fuel (rules.start i b params) := by
  have hRemains : b.Remains rest := hRest ▸ ScanBuffer.remains_of_queue hSource
  obtain ⟨backend, a, entry, hEngine⟩ := hRules i
  obtain ⟨found, left, exhausted, hFinds, -, hAwaits⟩ :=
    RuleSet.exists_awaits hEngine hRemains params
  refine ⟨?_, fun ω hook host reply c hHook hInvoke => RuleSet.calls_of_follow hHook hInvoke⟩
  have hSide := hAwaits.sideBySide hRules hFinds.span_eq fuel
  rw [hFinds.text_append_left] at hSide
  exact hSide.progress

/-- Two words and the blank between them, with the rule suspended wherever a chunk ends. -/
theorem invoke_progress_wordCount :
    wordCount.Runs ∧ twoWords.source = .queue [.more [98, 32], .last [99]] ∧
      Progress 0 [97, 98, 32, 99]
        ((wordCount.callsWithin 12 (wordCount.start 0 twoWords 0)).map fun call => call.2.1) ∧
      wordCount.ResumesAtOnce (Hook.passThrough : Hook 1 Nat Nat Unit) ∧
      ∃ reply c, wordCount.invoke Hook.passThrough 12 0 twoWords 0 (.ofHost ()) =
          some (reply, c) ∧
        c.calls = wordCount.callsWithin 12 (wordCount.start 0 twoWords 0) := by
  have hRules : wordCount.Runs := by
    intro i
    obtain rfl : i = 0 := Subsingleton.elim i 0
    exact ⟨.table, Automaton.words, 0, rfl⟩
  have hHook : wordCount.ResumesAtOnce (Hook.passThrough : Hook 1 Nat Nat Unit) := fun _ _ _ => rfl
  obtain ⟨hProgress, hCalls⟩ := invoke_progress hRules (b := twoWords) rfl rfl 0 0 12
  have hSome : (wordCount.invoke Hook.passThrough 12 0 twoWords 0 (.ofHost ())).isSome = true := by
    decide +kernel
  obtain ⟨⟨reply, c⟩, hEnds⟩ := Option.isSome_iff_exists.mp hSome
  exact ⟨hRules, rfl, hProgress, hHook, reply, c, hEnds, hCalls Unit _ () reply c hHook hEnds⟩

end StreamLexer
