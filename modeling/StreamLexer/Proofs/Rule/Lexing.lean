import StreamLexer.Proofs.Input.Split
import StreamLexer.Proofs.Lexing.Chunking
import StreamLexer.Proofs.Lexing.Tiling
import StreamLexer.Proofs.Rule.Entry
import StreamLexer.Rule.Lexing

/-!
# Lexing by a rule and batch lexing

Lexing by a rule invokes a rule that hands back its lexemes, over and over up to an empty match. It
does so on an input that is cut into pieces, and batch lexing does the same by searches on the input
as a whole. Both have a guard against empty matches before the end: that of batch lexing stands in
its loop, and that of a rule in front of its actions. So both find the same matches, or fail at the
same place.

The pieces are all taken in on the way, each by one refill, and each refill of a hooked rule comes
with one suspension.

## Main definitions

* `RuleLexing.harness`: the rule that hands back its lexemes

## Main results

* `RuleLexing.rule_eq`: the rule is accepted if it has enough actions
* `RuleLexing.invoke_of_nextMatch`: an invocation hands back the next match
* `RuleLexing.collect_agrees`: the loop finds what the loop of batch lexing finds
* `lexByRule_lexAll`: lexing by a rule agrees with batch lexing
-/

namespace StreamLexer

namespace RuleLexing

/-- A rule that hands back its lexemes. -/
def harness (e : Engine) (actions : Nat) (hooked : Bool) : Rule 1 Unit Match :=
  ⟨"harness", e, Array.replicate actions fun found () => .finish found, hooked⟩

/-- **The rule is accepted if it has enough actions.** -/
theorem rule_eq {a : Automaton} {actions : Nat}
    (hActions : ∀ s action, a.action? s = some action → action.toNat < actions) (backend : Backend)
    (entry : StateId) (hooked : Bool) :
    rule (Engine.inForm backend a entry) actions hooked =
      .ok (harness (Engine.inForm backend a entry) actions hooked) := by
  refine Rule.ofParts_eq_ok_iff.mpr ⟨rfl, fun highest hHighest => ?_⟩
  have hMax : a.maxAction? = some highest := by cases backend <;> exact hHighest
  obtain ⟨s, hAction⟩ := Automaton.exists_action_of_maxAction hMax
  rw [Array.size_replicate]
  exact hActions s highest hAction

section Invoke

variable {a : Automaton} {backend : Backend} {entry : StateId} {actions scans : Nat}
  {b b' : ScanBuffer} {m : Match}

/-- **An invocation hands back the next match**, or refuses it, in as many scans as the deliveries
to come allow for. -/
theorem invoke_of_nextMatch (hEntry : entry.toNat < a.size)
    (hActions : ∀ s action, a.action? s = some action → action.toNat < actions) (hooked : Bool)
    (hScans : b.toCome < scans)
    (hMatch : (Engine.inForm backend a entry).nextMatch b = (.ok m, b')) :
    ∃ reply c refills,
      RuleSet.invoke #v[harness (Engine.inForm backend a entry) actions hooked] Hook.passThrough
        scans 0 b () (.ofHost ()) = some (reply, c) ∧
      b'.refills = b.refills + refills ∧ c.suspensions = (if hooked then refills else 0) ∧
      (m.span.isEmpty = true → b'.isExhausted = false →
        reply = .error (.malformed (.ruleEmptyMatch "harness" m.action m.span.start))) ∧
      (m.span.isEmpty = false ∨ b'.isExhausted = true →
        reply = .ok m ∧ c.leftBuffer? (fun _ => true) = some b') := by
  let rules : RuleSet 1 Unit Match := #v[harness (Engine.inForm backend a entry) actions hooked]
  have hEngine : Engine.ofAutomaton backend a entry = .ok (rules.rule 0).engine :=
    Engine.ofAutomaton_of_lt hEntry backend
  have hHook : (rules.rule 0).hooked = true →
      (Hook.passThrough : Hook 1 Unit Match Unit) = Hook.passThrough := fun _ => rfl
  rcases RuleSet.nextMatch_cases hEngine hHook b () with ⟨error, b₁, -, -, hError, -⟩ |
    ⟨action, b₁, refills, events, hMatch', ⟨target, hAction⟩, hFinds⟩
  · cases hMatch.symm.trans hError
  · cases hMatch.symm.trans hMatch'
    have hLt := hActions target action hAction
    have hAct : (rules.rule 0).actions[action.toNat]? = some fun found () => .finish found := by
      show (Array.replicate actions _)[action.toNat]? = _
      simp [hLt]
    have hLe : refills ≤ b.toCome := hFinds.refills_le
    obtain ⟨fuel, rfl⟩ : ∃ fuel, scans = fuel + refills + 1 := ⟨scans - refills - 1, by omega⟩
    have hLeads := hFinds.leadsTo
    have hCount : events.countP Event.isSuspension = if hooked then refills else 0 :=
      hFinds.suspensions_eq
    by_cases hRefused : (Engine.matchOf action b₁.window).span.isEmpty = true ∧
      b₁.isExhausted = false
    · obtain ⟨hSpan, hMore⟩ := hRefused
      rw [RuleSet.dispatch_of_empty hSpan hMore, List.append_nil] at hLeads
      refine ⟨_, _, refills, hLeads fuel (.ofHost ()), hFinds.refills_eq, ?_, fun _ _ => rfl, ?_⟩
      · rw [Course.suspensions_record, Course.suspensions_record, hCount]
        exact Nat.zero_add _
      · rintro (hFalse | hTrue)
        · cases hSpan.symm.trans hFalse
        · cases hMore.symm.trans hTrue
    · have hAccepts : (Engine.matchOf action b₁.window).span.isEmpty = false ∨
          b₁.isExhausted = true := by
        refine or_iff_not_imp_left.mpr fun hSpan => eq_true_of_ne_false fun hMore => ?_
        exact hRefused ⟨eq_true_of_ne_false hSpan, hMore⟩
      rw [RuleSet.dispatch_of_action hAccepts hAct] at hLeads
      refine ⟨_, _, refills, hLeads fuel (.ofHost ()), hFinds.refills_eq, ?_, ?_, fun _ => ?_⟩
      · rw [Course.suspensions_record, Course.suspensions_record, List.countP_append, hCount]
        exact Nat.zero_add _
      · exact fun hSpan hMore => absurd ⟨hSpan, hMore⟩ hRefused
      · exact ⟨rfl, rfl⟩

end Invoke

section Collect

/-- One turn of the loop. -/
theorem collect_succ (rules : RuleSet 1 Unit Match) (scans fuel : Nat) (sofar : RuleLexing)
    (log : List LogLine) (b : ScanBuffer) :
    collect rules scans (fuel + 1) sofar log b =
      match rules.invoke Hook.passThrough scans 0 b () (.ofHost ()) with
      | none => (.error (.malformed .endless), log)
      | some (reply, c) =>
        let log := c.events.filterMap rules.logLine? ++ log
        match reply with
        | .error error => (.error error, log)
        | .ok found =>
          let b := (c.leftBuffer? fun _ => true).getD b
          let sofar := ⟨found :: sofar.found, sofar.suspensions + c.suspensions, b.refills⟩
          if found.span.isEmpty then
            if b.isExhausted then (.ok sofar, log)
            else (.error (.malformed (.emptyMatch b.window.position)), log)
          else collect rules scans fuel sofar log b := rfl

variable {a : Automaton} {entry : StateId} {row : Array StateId} {actions scans total fuel : Nat}
  {b : ScanBuffer} {rest : List UInt8}

/-- **The loop finds what the loop of batch lexing finds**, or both fail before the same byte. All
deliveries are taken in by then, each with a suspension if the rule is hooked. -/
theorem collect_agrees (hEntry : a.state? entry = some (.dispatch row))
    (hActions : ∀ s action, a.action? s = some action → action.toNat < actions) (backend : Backend)
    (hooked : Bool) (hRest : b.Remains rest) (hTotals : b.Totals total) (hFuel : rest.length < fuel)
    (hScans : total + 1 < scans) (sofar : RuleLexing)
    (hSofar : sofar.suspensions = if hooked then b.refills else 0) (log : List LogLine) :
    (∃ r, (collect #v[harness (Engine.inForm backend a entry) actions hooked] scans fuel sofar log
          b).1 = .ok r ∧
        ((Engine.inForm backend a entry).collect fuel sofar.found b).1 = .ok r.found.reverse ∧
        r.refills = total ∧ r.suspensions = if hooked then total else 0) ∨
      ∃ action offset,
        (collect #v[harness (Engine.inForm backend a entry) actions hooked] scans fuel sofar log
          b).1 = .error (.malformed (.ruleEmptyMatch "harness" action offset)) ∧
        ((Engine.inForm backend a entry).collect fuel sofar.found b).1 =
          .error (.malformed (.emptyMatch offset)) := by
  -- match by match
  induction fuel generalizing b rest sofar log with
  | zero => omega
  | succ fuel ih =>
    have hExists := Automaton.lt_size_of_state? hEntry
    obtain ⟨m, left, hLess, hNext⟩ := Engine.exists_nextMatch hEntry b hRest
    obtain ⟨b', hMatch, hLeft, hStop, -⟩ := hNext backend b hRest rfl
    have hTotals' : b'.Totals total := by
      have hBegin : b.beginLexeme.Totals total := hTotals.of_window rfl
      rw [Engine.nextMatch, Engine.entry_inForm] at hMatch
      exact Engine.matchFrom_induction (p := fun c => c.Totals total)
        (fun _ _ h hEnd => h.of_window hEnd) (fun _ _ _ h hRefill => h.refill hRefill) hExists
        hBegin hMatch
    obtain ⟨reply, c, refills, hInvoke, hRefills, hSuspensions, hRefuses, hAccepts⟩ :=
      invoke_of_nextMatch hExists hActions hooked (Nat.lt_of_le_of_lt hTotals.toCome_le hScans)
        hMatch
    have hSuspended : sofar.suspensions + c.suspensions = if hooked then b'.refills else 0 := by
      rw [hSofar, hSuspensions]
      split
      · exact hRefills.symm
      · rfl
    rw [collect_succ, hInvoke, Engine.collect, hMatch]
    dsimp only
    by_cases hSpan : m.span.isEmpty = true
    · by_cases hExhausted : b'.isExhausted = true
      · obtain ⟨rfl, hBuffer⟩ := hAccepts (.inr hExhausted)
        have hTotal := hTotals'.refills_eq hExhausted
        left
        refine ⟨⟨m :: sofar.found, sofar.suspensions + c.suspensions, b'.refills⟩, ?_, ?_, hTotal,
          ?_⟩
        · simp [hBuffer, hSpan, hExhausted]
        · simp [hSpan, hExhausted]
        · rw [hSuspended, hTotal]
      · rw [Bool.not_eq_true] at hExhausted
        obtain rfl := hRefuses hSpan hExhausted
        right
        refine ⟨m.action, m.span.start, rfl, ?_⟩
        have hStart : m.span.start = m.span.stop := by simpa [Span.isEmpty] using hSpan
        simp [hSpan, hExhausted, hStop, hStart]
    · rw [Bool.not_eq_true] at hSpan
      obtain ⟨rfl, hBuffer⟩ := hAccepts (.inl hSpan)
      have hShort := hLess hSpan
      simp only [hBuffer, hSpan, Option.getD_some, Bool.false_eq_true, if_false]
      exact ih hLeft hTotals' (by omega) ⟨m :: sofar.found, _, _⟩ hSuspended _

end Collect

end RuleLexing

/-- **Lexing by a rule agrees with batch lexing.** An engine is made for any automaton, in any form,
whose lexemes start at a dispatch state, and the rule has more actions than any that the automaton
reports. However an input is cut, by cuts in any order, repeated or behind the end, and whether the
rule is hooked or not: lexing it by the rule succeeds with the matches of batch lexing on the whole
input, after one refill for each piece, and with as many suspensions if the rule is hooked and none
if it is not; or both fail for an empty match before the end of the input, at the same offset. -/
theorem lexByRule_lexAll {a : Automaton} {entry : StateId} {row : Array StateId}
    (hEntry : a.state? entry = some (.dispatch row)) {actions : Nat}
    (hActions : ∀ s action, a.action? s = some action → action.toNat < actions) (backend : Backend)
    (input : List UInt8) (cuts : List Nat) (hooked : Bool) :
    ∃ e, Engine.ofAutomaton backend a entry = .ok e ∧
      ((∃ r, (e.lexByRule actions input cuts hooked).1 = .ok r ∧
          (e.lexAll (.ofBytes input)).1 = .ok r.found ∧ r.refills = cuts.length + 1 ∧
          r.suspensions = if hooked then r.refills else 0) ∨
        ∃ action offset,
          (e.lexByRule actions input cuts hooked).1 =
            .error (.malformed (.ruleEmptyMatch "harness" action offset)) ∧
          (e.lexAll (.ofBytes input)).1 = .error (.malformed (.emptyMatch offset))) := by
  refine ⟨_, Engine.ofAutomaton_of_lt (Automaton.lt_size_of_state? hEntry) backend, ?_⟩
  have hRest : (ScanBuffer.ofSource [] (.split input cuts)).Remains input := by
    have hDelivers := Source.delivers_queue (Source.pieces 0 input cuts)
    rw [Source.delivered_pieces] at hDelivers
    exact ScanBuffer.remains_ofSource hDelivers []
  have hWhole := ScanBuffer.remains_ofBytes input
  have hScans : cuts.length + 1 + 1 <
      (Engine.inForm backend a entry).scanBound (.ofSource [] (.split input cuts)) := by
    have hAhead : (Source.split input cuts).ahead = cuts.length + 1 :=
      Source.length_pieces 0 input cuts
    simp only [Engine.scanBound, ScanBuffer.ofSource, hAhead]
    omega
  have hBatch : ((Engine.inForm backend a entry).lexAll (.ofBytes input)).1 =
      ((Engine.inForm backend a entry).collect (input.length + 1) []
        (.ofSource [] (.split input cuts))).1 :=
    Engine.collect_of_remains hEntry backend hWhole hRest rfl
      (Nat.lt_succ_of_le hWhole.length_le_volume) (Nat.lt_succ_self _) []
  rw [hBatch, Engine.lexByRule, RuleLexing.rule_eq hActions]
  rcases RuleLexing.collect_agrees hEntry hActions backend hooked hRest
    (ScanBuffer.totals_split input cuts) (Nat.lt_add_one input.length) hScans ⟨[], 0, 0⟩
    (by cases hooked <;> rfl) [] with ⟨r, hOk, hFound, hRefills, hSuspensions⟩ |
    ⟨action, offset, hError, hEmpty⟩
  · left
    refine ⟨{ r with found := r.found.reverse }, ?_, hFound, hRefills, ?_⟩
    · simp [hOk, Except.map]
    · rw [hSuspensions, hRefills]
  · right
    refine ⟨action, offset, ?_, hEmpty⟩
    simp [hError, Except.map]

theorem Automaton.action?_words_lt (s : StateId) (action : ActionId)
    (h : words.action? s = some action) : action.toNat < 3 := by
  have hMem : State.terminal action ∈ words.states := Array.mem_of_getElem? (state?_of_action? h)
  simp only [words, wordTables, List.mem_toArray, List.mem_cons, List.not_mem_nil, or_false,
    reduceCtorEq, false_or, State.terminal.injEq] at hMem
  rcases hMem with rfl | rfl | rfl <;> decide

/-- Cuts behind the end, out of order and repeated make four pieces, of which two are empty. -/
theorem lexByRule_lexAll_words :
    Automaton.words.state? 0 = some (.dispatch #[1, 2, 3]) ∧
      (∀ s action, Automaton.words.action? s = some action → action.toNat < 3) ∧
      ∃ e r, Engine.ofAutomaton .direct Automaton.words 0 = .ok e ∧
        (e.lexByRule 3 [97, 98, 32, 99] [1, 9, 1] true).1 = .ok r ∧
        (e.lexAll (.ofBytes [97, 98, 32, 99])).1 = .ok r.found ∧
        r.refills = 4 ∧ r.suspensions = 4 := by
  have hEntry : Automaton.words.state? 0 = some (.dispatch #[1, 2, 3]) := rfl
  obtain ⟨e, hEngine, hAgrees⟩ := lexByRule_lexAll hEntry Automaton.action?_words_lt .direct
    [97, 98, 32, 99] [1, 9, 1] true
  refine ⟨hEntry, Automaton.action?_words_lt, e, ?_⟩
  rcases hAgrees with ⟨r, hOk, hFound, hRefills, hSuspensions⟩ | ⟨action, offset, -, hError⟩
  · exact ⟨r, hEngine, hOk, hFound, hRefills, hSuspensions.trans hRefills⟩
  · obtain ⟨-, rfl⟩ := Engine.ofAutomaton_eq_ok_iff.mp hEngine
    have hWhole := ScanBuffer.remains_ofBytes [97, 98, 32, 99]
    obtain ⟨ms, hOk, -⟩ := Engine.collect_lexes_of_reading hEntry Automaton.words_reads .direct
      hWhole (Nat.lt_succ_of_le hWhole.length_le_volume)
    cases hOk.symm.trans hError

end StreamLexer
