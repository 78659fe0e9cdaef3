import StreamLexer.Proofs.Rule.Chain

/-!
# Schedules of suspensions

A suspended rule can be made to wait in many ways. Its host may refill the buffer any number of
times ahead, and then resume the rule at once, or park the continuation and answer something in its
place; a driver outside resumes what is parked, turn by turn, until nothing is. A policy makes these
choices anew at each suspension.

When every lexeme starts at a dispatch state and the source does not fail, the policy does not show.
A refill ahead brings the stream nearer to its end without changing the match to come, so that every
suspension is followed by a match in the end, and the chain of matches is the one without hooks.

## Main definitions

* `Policy`: the choices of a host at each suspension
* `Policy.hook`: the host that makes them
* `RuleSet.drive`: resumes what is parked until nothing is
* `RuleSet.Settles`: following and driving an invocation ends with a reply, after some calls

## Main results

* `RuleSet.Chain.settles`: every schedule ends as the chain of matches does
* `drive_invoke`: whenever an invocation ends without hooks, every schedule ends alike
-/

namespace StreamLexer

variable {n : Nat} {P R ω σ : Type}

/-- What a host does about a suspended rule: it refills so many times ahead, and then parks the
continuation with an answer in its place, or resumes it at once. -/
structure Respite (R : Type) where
  refills : Nat
  parks : Option (Except LexError R)

/-- The choices of a host with a memory of type `σ`, made anew at each suspension. -/
abbrev Policy (n : Nat) (P R σ : Type) := Continuation n P → σ → Respite R × σ

/-- A host that follows a policy: the memory of the policy, and what is parked. -/
structure Waiting (n : Nat) (P σ : Type) where
  memory : σ
  parked : Option (Continuation n P)

/-- Refills the buffer of a continuation so many times, unless a refill fails. -/
def Continuation.fetchAhead : Nat → Continuation n P → Except LexError (Continuation n P)
  | 0, k => .ok k
  | m + 1, k =>
    match k.buffer.refill with
    | (.error error, _) => .error error
    | (.ok _, b) => fetchAhead m { k with buffer := b }

/-- The host that follows a policy. It answers a failed refill with the failure. -/
def Policy.hook (policy : Policy n P R σ) : Hook n P R (Waiting n P σ) := fun k host =>
  let (respite, memory) := policy k host.memory
  match k.fetchAhead respite.refills with
  | .error error => (.answer (.error error), ⟨memory, host.parked⟩)
  | .ok k =>
    match respite.parks with
    | none => (.passThrough k, ⟨memory, host.parked⟩)
    | some reply => (.answer reply, ⟨memory, some k⟩)

theorem Policy.hook_eq {policy : Policy n P R σ} {k ahead : Continuation n P}
    {host : Waiting n P σ} {respite : Respite R} {memory : σ}
    (hPolicy : policy k host.memory = (respite, memory))
    (hAhead : k.fetchAhead respite.refills = .ok ahead) :
    policy.hook k host =
      match respite.parks with
      | none => (.passThrough ahead, ⟨memory, host.parked⟩)
      | some reply => (.answer reply, ⟨memory, some ahead⟩) := by
  simp only [hook, hPolicy, hAhead]

namespace RuleSet

/-- Resumes what is parked until nothing is, for so many turns at most, with so many scans in a row
at most in each. -/
def drive (rules : RuleSet n P R) (policy : Policy n P R σ) (scans : Nat) :
    Nat → Reply n P R (Waiting n P σ) → Reply n P R (Waiting n P σ)
  | 0, _ => none
  | _ + 1, none => none
  | turns + 1, some (reply, c) =>
    match c.host.parked with
    | none => some (reply, c)
    | some k =>
      drive rules policy scans turns
        (rules.resume policy.hook scans k { c with host := ⟨c.host.memory, none⟩ })

/-- Following an invocation, and driving what is parked on the way, ends with a reply after some
calls, if enough scans and turns are granted. -/
def Settles (rules : RuleSet n P R) (policy : Policy n P R σ) (k : Continuation n P)
    (c : Course n P R (Waiting n P σ)) (reply : Except LexError R)
    (calls : List (Fin n × Match × P)) : Prop :=
  ∃ bound, ∀ fuel scans turns, bound ≤ fuel → bound ≤ scans → bound ≤ turns →
    ∃ c', rules.drive policy scans turns (rules.follow policy.hook fuel k c) = some (reply, c') ∧
      c'.calls = calls

section Settles

variable {rules : RuleSet n P R} {policy : Policy n P R σ} {k : Continuation n P}
  {c : Course n P R (Waiting n P σ)} {reply : Except LexError R}
  {calls : List (Fin n × Match × P)}

theorem settles_of_next {events : List (Event n P R)} {k' : Continuation n P}
    (hStep : rules.step k = (events, .next k'))
    (h : rules.Settles policy k' (c.record events) reply calls) :
    rules.Settles policy k c reply calls := by
  obtain ⟨bound, hBound⟩ := h
  refine ⟨bound + 1, fun fuel scans turns hFuel hScans hTurns => ?_⟩
  obtain ⟨fuel, rfl⟩ : ∃ m, fuel = m + 1 := ⟨fuel - 1, by omega⟩
  rw [follow_of_next hStep]
  exact hBound fuel scans turns (by omega) (by omega) (by omega)

theorem settles_of_reply {events : List (Event n P R)} {b : ScanBuffer}
    {decision : Decision n P R} (hStep : rules.step k = (events, rules.enact b decision))
    (hReply : decision.reply? = some reply) (hParked : c.host.parked = none) :
    rules.Settles policy k c reply (c.calls ++ events.filterMap Event.call?) := by
  refine ⟨1, fun fuel scans turns hFuel hScans hTurns => ?_⟩
  obtain ⟨fuel, rfl⟩ : ∃ m, fuel = m + 1 := ⟨fuel - 1, by omega⟩
  obtain ⟨turns, rfl⟩ : ∃ m, turns = m + 1 := ⟨turns - 1, by omega⟩
  obtain ⟨c', hFollow, hHost, hCalls⟩ := follow_of_reply hStep hReply c
  refine ⟨c', ?_, hCalls⟩
  rw [hFollow, drive, hHost, hParked]

/-- However a suspended rule is made to wait, it goes on from its buffer refilled once more. -/
theorem settles_of_suspended {k' ahead : Continuation n P} {respite : Respite R} {memory : σ}
    {r : Option Refill} {b : ScanBuffer} (hStep : rules.step k = ([], .suspended k'))
    (hParked : c.host.parked = none) (hPolicy : policy k' c.host.memory = (respite, memory))
    (hAhead : k'.fetchAhead respite.refills = .ok ahead)
    (hRefill : ahead.buffer.refill = (.ok r, b))
    (h : rules.Settles policy { ahead with buffer := b }
      ((c.suspend k' ⟨memory, none⟩).record
        (refillEvents r ++ [.resumed { ahead with buffer := b }])) reply calls) :
    rules.Settles policy k c reply calls := by
  obtain ⟨bound, hBound⟩ := h
  refine ⟨bound + 1, fun fuel scans turns hFuel hScans hTurns => ?_⟩
  obtain ⟨fuel, rfl⟩ : ∃ m, fuel = m + 1 := ⟨fuel - 1, by omega⟩
  obtain ⟨turns, rfl⟩ : ∃ m, turns = m + 1 := ⟨turns - 1, by omega⟩
  rw [follow_of_suspended hStep, Policy.hook_eq hPolicy hAhead]
  cases respite.parks with
  | none =>
    dsimp only
    rw [Plan.carryOut_passThrough, Continuation.resumeBy_of_refill hRefill, hParked]
    exact hBound fuel scans (turns + 1) (by omega) (by omega) (by omega)
  | some answer =>
    show ∃ c', rules.drive policy scans turns
      (rules.resume policy.hook scans ahead (c.suspend k' ⟨memory, none⟩)) = some (reply, c') ∧
        c'.calls = calls
    rw [resume, Continuation.resumeBy_of_refill hRefill]
    exact hBound scans scans turns (by omega) (by omega) (by omega)

end Settles

/-- Refills ahead succeed, and do not change the match to come. -/
theorem Foresees.fetchAhead {rules : RuleSet n P R} {k : Continuation n P} {found : Match}
    {left : List UInt8} (h : rules.Foresees k found left) (m : Nat) :
    ∃ k', k.fetchAhead m = .ok k' ∧ k'.rule = k.rule ∧ k'.params = k.params ∧
      k'.buffer.toCome ≤ k.buffer.toCome ∧ rules.Foresees k' found left := by
  induction m generalizing k with
  | zero => exact ⟨k, rfl, rfl, rfl, Nat.le_refl _, h⟩
  | succ m ih =>
    obtain ⟨r, b, hRefill, hFound⟩ := h.refill
    obtain ⟨k', hAhead, hRule, hParams, hLe, hFound'⟩ := ih hFound
    refine ⟨k', ?_, hRule, hParams, ?_, hFound'⟩
    · rw [Continuation.fetchAhead, hRefill]
      exact hAhead
    · have hLess := ScanBuffer.toCome_le_of_refill hRefill
      dsimp only at hLe
      omega

section Schedules

variable {rules : RuleSet n P R} {policy : Policy n P R σ} {i : Fin n} {params : P}
  {found : Match} {left : List UInt8} {reply : Except LexError R}
  {calls : List (Fin n × Match × P)}

/-- **Every suspension is followed by the match to come in the end.** What an invocation settles for
at its next match, it settles for before. -/
theorem Foresees.settles {called : List (Fin n × Match × P)} {decision : Decision n P R}
    (hVerdict : rules.verdict i found left.isEmpty params = (called, decision))
    (hMatch : ∀ (k : Continuation n P) (events : List (Event n P R)) (b : ScanBuffer)
      (c : Course n P R (Waiting n P σ)), rules.step k = (events, rules.enact b decision) →
      events.filterMap Event.call? = called → b.Remains left →
      b.window.position = found.span.stop → c.host.parked = none →
      rules.Settles policy k c reply (c.calls ++ calls))
    {k : Continuation n P} (h : rules.Foresees k found left) (hRule : k.rule = i)
    (hParams : k.params = params) (c : Course n P R (Waiting n P σ))
    (hParked : c.host.parked = none) : rules.Settles policy k c reply (c.calls ++ calls) := by
  induction hn : k.buffer.toCome using Nat.strongRecOn generalizing k c with
  | ind m ih =>
    subst hn
    rcases h.step_cases with ⟨events, b, hStep, hCalls, hLeft, hStop⟩ |
      ⟨k', hRule', hParams', hCome, hPos, hFound, hStep⟩
    · rw [hRule, hParams, hVerdict] at hStep hCalls
      exact hMatch k events b c hStep hCalls hLeft hStop hParked
    · by_cases hHooked : (rules.rule k.rule).hooked = true
      · -- after the refills ahead
        rw [if_pos hHooked] at hStep
        rcases hPolicy : policy k' c.host.memory with ⟨respite, memory⟩
        obtain ⟨ahead, hAhead, hRule'', hParams'', hLe, hFound'⟩ :=
          hFound.fetchAhead respite.refills
        obtain ⟨r, b, hRefill, hFound''⟩ := hFound'.refill
        have hLess := ScanBuffer.toCome_le_of_refill hRefill
        refine settles_of_suspended hStep hParked hPolicy hAhead hRefill ?_
        have hSettles := ih b.toCome (by omega) hFound''
          (hRule''.trans (hRule'.trans hRule)) (hParams''.trans (hParams'.trans hParams))
          ((c.suspend k' ⟨memory, none⟩).record
            (refillEvents r ++ [.resumed { ahead with buffer := b }])) rfl rfl
        rw [Course.calls_record, Course.calls_suspend, call?_resumed, List.append_nil] at hSettles
        exact hSettles
      · rw [if_neg hHooked, refillInPlace] at hStep
        obtain ⟨r, b, hRefill, hFound'⟩ := hFound.refill
        have hLess := ScanBuffer.toCome_le_of_refill hRefill
        rw [hRefill] at hStep
        refine settles_of_next hStep ?_
        have hSettles := ih b.toCome (by omega) hFound' (hRule'.trans hRule)
          (hParams'.trans hParams) (c.record (refillEvents r)) hParked rfl
        rw [Course.calls_record, call?_refillEvents, List.append_nil] at hSettles
        exact hSettles

/-- **Every schedule ends as the chain of matches does**, after the same calls. -/
theorem Chain.settles (h : rules.Chain i params found left calls reply) {k : Continuation n P}
    (hFound : rules.Foresees k found left) (hRule : k.rule = i) (hParams : k.params = params)
    (c : Course n P R (Waiting n P σ)) (hParked : c.host.parked = none) :
    rules.Settles policy k c reply (c.calls ++ calls) := by
  -- along the chain
  induction h generalizing k c with
  | ended hVerdict hReply =>
    refine hFound.settles hVerdict (fun k events b c hStep hCalls _ _ hParked => ?_) hRule hParams c
      hParked
    rw [← hCalls]
    exact settles_of_reply hStep hReply hParked
  | invoked hVerdict hNext _ ih =>
    refine hFound.settles hVerdict (fun k events b c hStep hCalls hLeft hStop hParked => ?_) hRule
      hParams c hParked
    have hSettles := ih (hNext b hLeft hStop) rfl rfl (c.record events) hParked
    rw [Course.calls_record, hCalls, List.append_assoc] at hSettles
    exact settles_of_next hStep hSettles

end Schedules

end RuleSet

/-- **Every schedule of suspensions ends alike.** Rules run automata whose lexemes start at dispatch
states, and their buffer takes in a queue of chunks. Whenever an invocation ends without hooks, any
of the rules may be hooked, and their host may refill ahead and resume or park as it pleases, anew
at each suspension: the driver comes to have nothing left to resume, the last of what was invoked or
resumed has given the same result or error, and the same actions were called, in the same order,
with the same lexemes and parameters. -/
theorem drive_invoke (rules : RuleSet n P R) (hRules : rules.StartsAtDispatch) (i : Fin n)
    {b : ScanBuffer} {chunks : List Chunk} (hSource : b.source = .queue chunks) (params : P)
    {hook : Hook n P R ω} {host : ω} {fuel : Nat} {reply : Except LexError R}
    {c : Course n P R ω}
    (h : rules.unhooked.invoke hook fuel i b params (.ofHost host) = some (reply, c))
    (policy : Policy n P R σ) (memory : σ) :
    ∃ bound, ∀ scans turns, bound ≤ scans → bound ≤ turns →
      ∃ c', rules.drive policy scans turns
          (rules.invoke policy.hook scans i b params (.ofHost ⟨memory, none⟩)) = some (reply, c') ∧
        c'.calls = c.calls := by
  obtain ⟨rest, hRest⟩ := ScanBuffer.exists_remains_of_queue hSource
  obtain ⟨found, left, hFound⟩ := hRules.unhooked.exists_foresees i hRest
  have hStart := hFound b params hRest rfl
  have hNoHook : ∀ j : Fin n, (rules.unhooked.rule j).hooked = false := by
    intro j
    rw [RuleSet.rule_unhooked]
  obtain ⟨calls, hChain, hCalls⟩ := RuleSet.chain_of_follow hRules.unhooked hNoHook hStart h
  rw [RuleSet.start_unhooked] at hStart
  have hSettles :
      rules.Settles policy (rules.start i b params) (.ofHost ⟨memory, none⟩) reply calls :=
    hChain.of_unhooked.settles hStart.of_unhooked rfl rfl (.ofHost ⟨memory, none⟩) rfl
  obtain ⟨bound, hBound⟩ := hSettles
  refine ⟨bound, fun scans turns hScans hTurns => ?_⟩
  obtain ⟨c', hDrive, hCalls'⟩ := hBound scans scans turns hScans hScans hTurns
  exact ⟨c', hDrive, hCalls'.trans hCalls.symm⟩

/-- Refills ahead once more at each suspension, and parks every other time. -/
def Policy.alternating : Policy 1 Nat Nat Nat := fun _ count =>
  (⟨count, if count % 2 = 0 then some (.ok 0) else none⟩, count + 1)

theorem drive_invoke_wordCount :
    ∃ reply c, wordCount.StartsAtDispatch ∧
      twoWords.source = .queue [.more [98, 32], .last [99]] ∧
      wordCount.unhooked.invoke Hook.passThrough 12 0 twoWords 0 (.ofHost ()) = some (reply, c) ∧
      ∃ bound, ∀ scans turns, bound ≤ scans → bound ≤ turns →
        ∃ c', wordCount.drive Policy.alternating scans turns
            (wordCount.invoke Policy.alternating.hook scans 0 twoWords 0 (.ofHost ⟨0, none⟩)) =
              some (reply, c') ∧
          c'.calls = c.calls := by
  have hRules : wordCount.StartsAtDispatch := by
    intro i
    obtain rfl : i = 0 := Subsingleton.elim i 0
    exact ⟨.table, Automaton.words, 0, #[1, 2, 3], Engine.ofAutomaton_of_lt (by decide) .table, rfl⟩
  obtain ⟨reply, c, hEnds⟩ := exists_reply_wordCount
  exact ⟨reply, c, hRules, rfl, hEnds,
    drive_invoke wordCount hRules 0 rfl 0 hEnds Policy.alternating 0⟩

end StreamLexer
