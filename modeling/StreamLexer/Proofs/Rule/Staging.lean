import StreamLexer.Proofs.Input.Refill
import StreamLexer.Proofs.Rule.PassThrough
import StreamLexer.Rule.Accumulator

/-!
# Input that is staged piece by piece

A stream need not be known when an invocation starts. Its buffer may have nothing to come, and the
host puts the next chunk behind it each time a hooked rule is suspended. Every suspension is
followed by exactly one refill, which takes that chunk and leaves nothing behind, so that the next
suspension finds the source as the first one did. When no chunk is left, the source ends the stream
by itself.

So the invocation takes the course of one whose chunks stand in a queue from the start: the same
events, in the same order, with the same windows. What differs is only what the sources still have
to give.

## Main definitions

* `ScanBuffer.withSource`: a buffer over another source
* `ScanBuffer.stageNext`: puts the next chunk behind a buffer
* `Hook.Stages`: a host that stages chunks one by one and resumes at once
* `Course.unsourced`: the events of a course, but for the sources of their buffers

## Main results

* `RuleSet.step_withSource`: a step of a hooked rule does not look at the source
* `ScanBuffer.Apart.refill`: a refill takes the chunk that was staged, or the one from the queue
* `RuleSet.follow_stages`: both courses are the same but for the sources
* `Accumulator.Host.stages_hook`: the host of a rule over an accumulator stages its chunks
* `invoke_stages`: staging the input is the same as having it in a queue
-/

namespace StreamLexer

variable {n : Nat} {P R ω : Type}

/-! ### Buffers that differ by their sources -/

namespace ScanBuffer

/-- The buffer over another source. -/
def withSource (b : ScanBuffer) (source : Source) : ScanBuffer := { b with source := source }

@[simp] theorem window_withSource (b : ScanBuffer) (source : Source) :
    (b.withSource source).window = b.window := rfl

@[simp] theorem isExhausted_withSource (b : ScanBuffer) (source : Source) :
    (b.withSource source).isExhausted = b.isExhausted := rfl

/-- Puts the first of the chunks behind the buffer; without any, the source stays as it is. -/
def stageNext (b : ScanBuffer) : List Chunk → ScanBuffer
  | [] => b
  | chunk :: _ => b.stage [chunk]

/-- Staging does nothing but to change the source. -/
theorem exists_stageNext_eq (b : ScanBuffer) (source : Source) (chunks : List Chunk) :
    ∃ source', (b.withSource source).stageNext chunks = b.withSource source' := by
  cases chunks with
  | nil => exact ⟨source, rfl⟩
  | cons chunk chunks => cases source <;> exact ⟨_, rfl⟩

/-- A refill with the same delivery from another source does the same. -/
theorem refill_withSource {b : ScanBuffer} {source left : Source} {delivery : Delivery}
    (hEnd : b.window.atEnd = false) (hSupply : b.source.supply.1 = delivery)
    (hSupply' : source.supply = (delivery, left)) :
    (b.withSource source).refill = (b.refill.1, b.refill.2.withSource left) := by
  rcases b.refill_cases with ⟨hEnd', -⟩ | ⟨causes, rest, -, hFails, hRefill⟩ |
    ⟨chunk, rest, -, hGives, hRefill⟩
  · rw [hEnd] at hEnd'
    cases hEnd'
  · obtain rfl : Delivery.failure causes = delivery := by rw [← hSupply, hFails]
    rw [hRefill, refill_of_failure (b := b.withSource source) hEnd hSupply']
    rfl
  · obtain rfl : Delivery.chunk chunk = delivery := by rw [← hSupply, hGives]
    rw [hRefill, refill_of_chunk (b := b.withSource source) hEnd hSupply']
    rfl

/-- The two sources of a buffer before its next delivery: all chunks to come stand in a queue, or
none does. At the end of the stream it no longer matters what the sources are. -/
def Apart (b : ScanBuffer) (source : Source) (chunks : List Chunk) : Prop :=
  b.window.atEnd = true ∨ b.source = .queue chunks ∧ source = .queue []

/-- A scan changes nothing about that. -/
theorem Apart.reached {b : ScanBuffer} {source : Source} {chunks : List Chunk} {w : Window}
    (h : b.Apart source chunks) (hEnd : w.atEnd = b.window.atEnd) :
    ScanBuffer.Apart { b with window := w } source chunks := by
  rcases h with hAtEnd | hSources
  · exact .inl (hEnd.trans hAtEnd)
  · exact .inr hSources

/-- **A refill takes the chunk that was staged**, and leaves as little as there was before. -/
theorem Apart.refill {b : ScanBuffer} {source : Source} {chunks : List Chunk}
    (h : b.Apart source chunks) :
    ∃ left, ((b.withSource source).stageNext chunks).refill =
        (b.refill.1, b.refill.2.withSource left) ∧ b.refill.2.Apart left chunks.tail := by
  cases hEnd : b.window.atEnd with
  | true =>
    obtain ⟨source', hStaged⟩ := b.exists_stageNext_eq source chunks
    have hEnd' : (b.withSource source').window.atEnd = true := hEnd
    refine ⟨source', ?_, ?_⟩
    · rw [hStaged, refill_of_atEnd hEnd', refill_of_atEnd hEnd]
    · rw [refill_of_atEnd hEnd]
      exact .inl hEnd
  | false =>
    obtain ⟨hQueue, rfl⟩ : b.source = .queue chunks ∧ source = .queue [] := by
      rcases h with hEnd' | hSources
      · rw [hEnd] at hEnd'
        cases hEnd'
      · exact hSources
    have hStaged : ((b.withSource (.queue [])).stageNext chunks).refill =
        (b.refill.1, b.refill.2.withSource (.queue [])) := by
      cases chunks with
      | nil => exact refill_withSource hEnd (by rw [hQueue]; rfl) rfl
      | cons chunk chunks => exact refill_withSource hEnd (by rw [hQueue]; rfl) rfl
    have hLeft : b.refill.2.source = .queue chunks.tail := by
      cases chunks with
      | nil => rw [refill_of_chunk hEnd (by rw [hQueue]; rfl), receive, afterAsking]; rfl
      | cons chunk chunks => rw [refill_of_chunk hEnd (by rw [hQueue]; rfl)]; rfl
    exact ⟨.queue [], hStaged, .inr ⟨hLeft, rfl⟩⟩

end ScanBuffer

/-! ### Steps and events -/

namespace Continuation

/-- The continuation over another source. -/
def withSource (k : Continuation n P) (source : Source) : Continuation n P :=
  { k with buffer := k.buffer.withSource source }

@[simp] theorem rule_withSource (k : Continuation n P) (source : Source) :
    (k.withSource source).rule = k.rule := rfl

@[simp] theorem params_withSource (k : Continuation n P) (source : Source) :
    (k.withSource source).params = k.params := rfl

@[simp] theorem buffer_withSource (k : Continuation n P) (source : Source) :
    (k.withSource source).buffer = k.buffer.withSource source := rfl

end Continuation

/-- What a step leads to, over another source. -/
def Step.withSource (source : Source) : Step n P R → Step n P R
  | next k => next (k.withSource source)
  | finished result b => finished result (b.withSource source)
  | failed error b => failed error (b.withSource source)
  | suspended k => suspended (k.withSource source)

/-- An event, but for the source of its buffer. -/
def Event.unsourced : Event n P R → Event n P R
  | acted rule found params => acted rule found params
  | refilled refill => refilled refill
  | suspended k => suspended (k.withSource .nothing)
  | resumed k => resumed (k.withSource .nothing)
  | finished result b => finished result (b.withSource .nothing)
  | failed error b => failed error (b.withSource .nothing)

namespace Course

/-- The events of a course, but for the sources of their buffers, latest first. -/
def unsourced (c : Course n P R ω) : List (Event n P R) := c.events.map Event.unsourced

theorem unsourced_record (c : Course n P R ω) (events : List (Event n P R)) :
    (c.record events).unsourced = (events.map Event.unsourced).reverse ++ c.unsourced := by
  simp [unsourced, record]

theorem unsourced_suspend (c : Course n P R ω) (k : Continuation n P) (host : ω) :
    (c.suspend k host).unsourced = .suspended (k.withSource .nothing) :: c.unsourced := rfl

/-- Sources are no part of a call. -/
theorem calls_eq_unsourced (c : Course n P R ω) :
    c.calls = c.unsourced.reverse.filterMap Event.call? := by
  rw [calls, unsourced, ← List.map_reverse, List.filterMap_map]
  congr 1
  funext event
  cases event <;> rfl

/-- The buffer left is left over some source. -/
theorem left?_eq_unsourced (c : Course n P R ω) :
    c.left?.map (·.withSource .nothing) = c.unsourced.findSome? Event.left? := by
  rw [left?, unsourced]
  induction c.events with
  | nil => rfl
  | cons event events ih =>
    rw [List.findSome?_cons, List.map_cons, List.findSome?_cons, ← ih]
    cases event <;> rfl

end Course

namespace RuleSet

variable {rules : RuleSet n P R} {k k' : Continuation n P} {events : List (Event n P R)}

theorem dispatch_withSource (rules : RuleSet n P R) (k : Continuation n P) (action : ActionId)
    (source : Source) :
    rules.dispatch (k.withSource source) action =
      ((rules.dispatch k action).1, (rules.dispatch k action).2.withSource source) := by
  cases hRefused :
    (Engine.matchOf action k.buffer.window).span.isEmpty && !k.buffer.isExhausted with
  | true =>
    simp only [dispatch, Continuation.rule_withSource, Continuation.buffer_withSource,
      ScanBuffer.window_withSource, ScanBuffer.isExhausted_withSource, hRefused]
    rfl
  | false =>
    simp only [dispatch, Continuation.rule_withSource, Continuation.params_withSource,
      Continuation.buffer_withSource, ScanBuffer.window_withSource,
      ScanBuffer.isExhausted_withSource, hRefused]
    cases (rules.rule k.rule).actions[action.toNat]? with
    | none => rfl
    | some act =>
      dsimp only
      cases act (Engine.matchOf action k.buffer.window) k.params <;> rfl

/-- **A step of a hooked rule does not look at the source.** -/
theorem step_withSource (hHooked : (rules.rule k.rule).hooked = true) (source : Source) :
    rules.step (k.withSource source) =
      ((rules.step k).1, (rules.step k).2.withSource source) := by
  rcases hRun : (rules.rule k.rule).engine.run k.buffer.window k.point with
    ⟨error | action | point, w⟩
  · rw [rules.step_of_error hRun, rules.step_of_error (k := k.withSource source) hRun]
    rfl
  · rw [rules.step_of_matched hRun, rules.step_of_matched (k := k.withSource source) hRun]
    exact rules.dispatch_withSource { k with buffer := { k.buffer with window := w } } action source
  · have hHooked' : (rules.rule (k.withSource source).rule).hooked = true := hHooked
    rw [rules.step_of_refill hRun, rules.step_of_refill (k := k.withSource source) hRun,
      if_pos hHooked, if_pos hHooked']
    rfl

/-- An action that goes on invokes a rule behind its lexeme. -/
theorem exists_start_of_dispatch {action : ActionId}
    (h : rules.dispatch k action = (events, .next k')) :
    ∃ i params, k' = rules.start i k.buffer.beginLexeme params := by
  unfold dispatch at h
  dsimp only at h
  split at h
  · cases h
  · split at h
    · cases h
    · next decide _ =>
      cases hDecision : decide (Engine.matchOf action k.buffer.window) k.params with
      | finish result =>
        rw [hDecision] at h
        cases h
      | fail error =>
        rw [hDecision] at h
        cases h
      | invoke i params =>
        rw [hDecision] at h
        cases h
        exact ⟨i, params, rfl⟩

/-- **A hooked rule goes on over the same source**, with no more of the stream in sight. -/
theorem apart_of_next (hHooked : (rules.rule k.rule).hooked = true)
    (hStep : rules.step k = (events, .next k')) {source : Source} {chunks : List Chunk}
    (h : k.buffer.Apart source chunks) : k'.buffer.Apart source chunks := by
  rcases hRun : (rules.rule k.rule).engine.run k.buffer.window k.point with
    ⟨error | action | point, w⟩
  · cases (rules.step_of_error hRun).symm.trans hStep
  · rw [rules.step_of_matched hRun] at hStep
    obtain ⟨i, params, rfl⟩ := exists_start_of_dispatch hStep
    have hEnd := Engine.atEnd_run (rules.rule k.rule).engine k.buffer.window k.point
    rw [hRun] at hEnd
    exact h.reached (w := w.beginLexeme.beginLexeme) hEnd
  · rw [rules.step_of_refill hRun, if_pos hHooked] at hStep
    cases hStep

theorem apart_of_suspended (hStep : rules.step k = (events, .suspended k')) {source : Source}
    {chunks : List Chunk} (h : k.buffer.Apart source chunks) : k'.buffer.Apart source chunks := by
  obtain ⟨-, -, point, w, hRun, rfl⟩ := exists_run_of_suspended hStep
  have hEnd := Engine.atEnd_run (rules.rule k.rule).engine k.buffer.window k.point
  rw [hRun] at hEnd
  exact h.reached hEnd

end RuleSet

/-! ### Hosts that stage -/

/-- The host stages chunks one by one: when some chunks wait with it, it puts the first of them
behind the buffer of a suspended rule and resumes the rule at once; when none waits, it only resumes
it. -/
def Hook.Stages (hook : Hook n P R ω) (waits : ω → List Chunk → Prop) : Prop :=
  ∀ k host chunks, waits host chunks →
    ∃ host', waits host' chunks.tail ∧
      hook k host = (.passThrough { k with buffer := k.buffer.stageNext chunks }, host')

namespace Accumulator.Host

/-- The chunks that still wait with the host of one rule. -/
def Waits (h : Host 1) (chunks : List Chunk) : Prop :=
  ∃ all, h.reactions = #v[.stage all] ∧ chunks = all.drop h.calls[0]

/-- **The host of a rule over an accumulator stages its chunks**, as many as it was called for. -/
theorem stages_hook : Host.hook.Stages Waits := by
  rintro k host chunks ⟨all, hReactions, rfl⟩
  obtain ⟨reactions, slots, calls⟩ := host
  subst hReactions
  obtain ⟨i, point, b, params⟩ := k
  obtain rfl : i = 0 := Subsingleton.elim i 0
  refine ⟨⟨#v[.stage all], slots, calls.set 0 (calls[0] + 1)⟩, ⟨all, rfl, by simp⟩, ?_⟩
  cases hDrop : all.drop calls[0] with
  | nil =>
    have hNone : all[calls[0]]? = none := by
      rw [← Nat.add_zero calls[0], ← List.getElem?_drop, hDrop]
      rfl
    simp [hook, hNone, ScanBuffer.stageNext]
  | cons chunk chunks =>
    have hNext : all[calls[0]]? = some chunk := by
      rw [← Nat.add_zero calls[0], ← List.getElem?_drop, hDrop]
      rfl
    simp [hook, hNext, ScanBuffer.stageNext]

theorem waits_ofReactions (chunks : List Chunk) : (ofReactions #v[.stage chunks]).Waits chunks :=
  ⟨chunks, rfl, rfl⟩

end Accumulator.Host

/-! ### Courses that differ by their sources -/

/-- What comes of an invocation, and its events but for their sources. -/
def Reply.unsourced (r : Reply n P R ω) : Option (Except LexError R × List (Event n P R)) :=
  r.map fun (reply, c) => (reply, c.unsourced)

namespace RuleSet

variable {rules : RuleSet n P R}

/-- **Chunks that are staged are chunks in a queue**: the same course is taken, but for the
sources. -/
theorem follow_stages {ω' : Type} (hHooked : ∀ i, (rules.rule i).hooked = true)
    {hook : Hook n P R ω'} {waits : ω' → List Chunk → Prop} (hStages : hook.Stages waits)
    (fuel : Nat) {k : Continuation n P} {source : Source} {chunks : List Chunk}
    (hApart : k.buffer.Apart source chunks) {c : Course n P R ω} {c' : Course n P R ω'}
    (hWaits : waits c'.host chunks) (hCourse : c'.unsourced = c.unsourced) :
    (rules.follow hook fuel (k.withSource source) c').unsourced =
      (rules.follow Hook.passThrough fuel k c).unsourced := by
  -- step by step, with the same fuel
  induction fuel generalizing k source chunks c c' with
  | zero => rfl
  | succ fuel ih =>
    have hStep' := step_withSource (hHooked k.rule) source
    rcases hStep : rules.step k with ⟨events, k' | ⟨result, b⟩ | ⟨error, b⟩ | k'⟩
    · rw [hStep] at hStep'
      rw [follow_of_next hStep, follow_of_next hStep']
      refine ih (apart_of_next (hHooked k.rule) hStep hApart) hWaits ?_
      rw [Course.unsourced_record, Course.unsourced_record, hCourse]
    · rw [hStep] at hStep'
      rw [follow, follow, hStep, hStep']
      simp only [Reply.unsourced, Step.withSource, Option.map_some, Course.unsourced_record,
        hCourse]
      rfl
    · rw [hStep] at hStep'
      rw [follow, follow, hStep, hStep']
      simp only [Reply.unsourced, Step.withSource, Option.map_some, Course.unsourced_record,
        hCourse]
      rfl
    · -- the host stages a chunk
      obtain ⟨rfl, -⟩ := exists_run_of_suspended hStep
      rw [hStep] at hStep'
      obtain ⟨host', hWaits', hHook⟩ := hStages (k'.withSource source) c'.host chunks hWaits
      obtain ⟨left, hStaged, hApart'⟩ := (apart_of_suspended hStep hApart).refill
      rw [follow_of_suspended hStep, follow_of_suspended hStep', hHook, Hook.passThrough,
        Plan.carryOut_passThrough, Plan.carryOut_passThrough]
      have hCourse' : (c'.suspend (k'.withSource source) host').unsourced =
          (c.suspend k' c.host).unsourced := by
        rw [Course.unsourced_suspend, Course.unsourced_suspend, hCourse]
        rfl
      rcases hRefill : k'.buffer.refill with ⟨error | r, b⟩
      · rw [hRefill] at hStaged
        simp only [Continuation.resumeBy, Continuation.buffer_withSource, hRefill, hStaged,
          Reply.unsourced, Option.map_some, Course.unsourced_record, hCourse']
        rfl
      · rw [hRefill] at hStaged hApart'
        rw [Continuation.resumeBy_of_refill hRefill, Continuation.resumeBy_of_refill hStaged]
        refine ih (k := { k' with buffer := b }) hApart' hWaits' ?_
        rw [Course.unsourced_record, Course.unsourced_record, hCourse', List.map_append,
          List.map_append]
        rfl

end RuleSet

/-- **Staging the input is having it in a queue.** Let all rules be hooked, and let their host put
the next of its chunks behind the buffer of each suspended rule, as long as there are any, and
resume the rule. Whenever an invocation ends without hooks on a stream that begins with some bytes
and goes on with a queue of chunks, the invocation with that host and the same chunks, on a stream
that begins with the same bytes and has nothing to come, ends with the same result or error. The
same actions are called, in the same order, with the same lexemes and parameters, and the buffer
left is the same, the number and the records of its refills included, but for its source. It does
not matter which chunks are empty, and which of them are marked as the last. -/
theorem invoke_stages {ω' : Type} (rules : RuleSet n P R)
    (hHooked : ∀ i, (rules.rule i).hooked = true) {hook : Hook n P R ω'}
    {waits : ω' → List Chunk → Prop} (hStages : hook.Stages waits) {host : ω'}
    {chunks : List Chunk} (hWaits : waits host chunks) (i : Fin n) (start : List UInt8) (params : P)
    {hook₀ : Hook n P R ω} {host₀ : ω} {fuel : Nat} {reply : Except LexError R}
    {c : Course n P R ω}
    (h : rules.unhooked.invoke hook₀ fuel i (.ofSource start (.queue chunks)) params
      (.ofHost host₀) = some (reply, c)) :
    ∃ c', rules.invoke hook fuel i (.ofSource start (.queue [])) params (.ofHost host) =
        some (reply, c') ∧ c'.calls = c.calls ∧
      ∃ left source, c.left? = some left ∧ c'.left? = some (left.withSource source) := by
  obtain ⟨d, hQueue, hCalls, left, hLeft, hLeft'⟩ :=
    invoke_passThrough rules i _ params hook₀ host₀ () h
  have hApart : (rules.start i (.ofSource start (.queue chunks)) params).buffer.Apart (.queue [])
      chunks := .inr ⟨rfl, rfl⟩
  have hSame : (rules.invoke hook fuel i (.ofSource start (.queue [])) params
      (.ofHost host)).unsourced = (rules.follow Hook.passThrough fuel
        (rules.start i (.ofSource start (.queue chunks)) params) (.ofHost ())).unsourced :=
    RuleSet.follow_stages hHooked hStages fuel hApart hWaits rfl
  rw [RuleSet.invoke] at hQueue
  rw [hQueue] at hSame
  obtain ⟨⟨reply', c'⟩, hStaged, hEq⟩ := Option.map_eq_some_iff.mp hSame
  obtain ⟨rfl, hUnsourced⟩ := Prod.mk.inj hEq
  refine ⟨c', hStaged, ?_, ?_⟩
  · rw [← hCalls, c'.calls_eq_unsourced, hUnsourced, ← d.calls_eq_unsourced]
  · have hAlike : c'.left?.map (·.withSource .nothing) = some (left.withSource .nothing) := by
      rw [c'.left?_eq_unsourced, hUnsourced, ← d.left?_eq_unsourced, hLeft']
      rfl
    obtain ⟨left', hLeft'', hBuffers⟩ := Option.map_eq_some_iff.mp hAlike
    have hBuffer : left' = left.withSource left'.source :=
      congrArg (·.withSource left'.source) hBuffers
    exact ⟨left, left'.source, hLeft, hBuffer ▸ hLeft''⟩

namespace Accumulator

/-- A hooked rule that counts words in its accumulator. -/
def wordCount : RuleSet 1 UInt64 Answer :=
  #v[{ name := "words"
       engine := .table Automaton.words 0
       actions := #[.stop, .again, .call (Fin.last 0) 1].map (Deed.action (Fin.last 0))
       hooked := true }]

/-- The rest of a word, nothing, and another word. -/
def wordChunks : List Chunk := [.more [98, 32], .more [], .last [99]]

/-- Two words are counted when they come in a queue, and so they are when they are staged. -/
theorem invoke_stages_wordCount :
    (∀ i, (wordCount.rule i).hooked = true) ∧ Host.hook.Stages Host.Waits ∧
      (Host.ofReactions #v[.stage wordChunks]).Waits wordChunks ∧
      ∃ reply c, wordCount.unhooked.invoke Hook.passThrough 12 0
          (.ofSource [97] (.queue wordChunks)) 0 (.ofHost ()) = some (reply, c) ∧
        ∃ c', wordCount.invoke Host.hook 12 0 (.ofSource [97] (.queue [])) 0
            (.ofHost (Host.ofReactions #v[.stage wordChunks])) = some (reply, c') ∧
          c'.calls = c.calls ∧
            ∃ left source, c.left? = some left ∧ c'.left? = some (left.withSource source) := by
  have hHooked : ∀ i, (wordCount.rule i).hooked = true := by decide
  have hWaits := Host.waits_ofReactions wordChunks
  have hSome : (wordCount.unhooked.invoke Hook.passThrough 12 0 (.ofSource [97] (.queue wordChunks))
      0 (.ofHost ())).isSome = true := by decide +kernel
  obtain ⟨⟨reply, c⟩, hEnds⟩ := Option.isSome_iff_exists.mp hSome
  exact ⟨hHooked, Host.stages_hook, hWaits, reply, c, hEnds,
    invoke_stages wordCount hHooked Host.stages_hook hWaits 0 [97] 0 hEnds⟩

end Accumulator

end StreamLexer
