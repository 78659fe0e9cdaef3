import StreamLexer.Proofs.Grammar.States
import StreamLexer.Proofs.Lexing.Tiling

/-!
# The matches of the sample grammar

Every byte string has matches in the sample grammar. The automaton reads on over a text as long as
the text has a phase, and is then in the state of that phase; so each match is a token with the
symbol behind it, or one of the texts that are none, and its action is the one kind that it matches.

## Main results

* `Sample.Follows.exists_phase`: what the automaton reads on over has a phase
* `Sample.Follows.exists_kind`: a match has the one kind that its text matches
* `Sample.exists_lexes`: every text has matches, from every buffer that it remains of
* `Sample.tokens_eq_tokensOf`: the tokens of a text are read off its matches
* `sample_lexical`: the matches of a text, and the kind of each
-/

namespace StreamLexer

namespace Sample

variable {a : Automaton} {x : List UInt8}

theorem number_start : number (.within .start) = entry := by decide +kernel

theorem start_mem_places : .within .start ∈ places := List.mem_cons_self

/-- Every phase that a text can be in has a state. -/
theorem Phase.Reads.mem_places {p : Phase} (h : p.Reads x) : .within p ∈ places := by
  cases p with
  | operator k =>
    have hOperators : ∀ k ∈ TokenKind.all, k.operator?.isSome →
        .within (.operator k) ∈ places := by
      decide +kernel
    have hText : k.operator? = some x := h
    exact hOperators k k.mem_all (by rw [hText]; rfl)
  | block starred => cases starred <;> decide +kernel
  | _ => decide +kernel

/-- **What the automaton reads on over has a phase**, and leads to the state of that phase. -/
theorem Follows.exists_phase (h : Follows a) (hReads : a.ReadsOn entry x) :
    ∃ p : Phase, p.Reads x ∧ a.stepAll? entry x = some (number (.within p)) := by
  induction x using List.reverseRecOn with
  | nil => exact ⟨.start, rfl, by rw [number_start]; rfl⟩
  | append_singleton x b ih =>
    obtain ⟨p, hp, hState⟩ := ih fun y hy => hReads y (hy.trans (List.prefix_append x [b]))
    have hStep : a.stepAll? entry (x ++ [b]) = some (number (p.next (.byte b))) := by
      rw [Automaton.stepAll?_append, hState, Option.bind_some, Automaton.stepAll?_cons,
        h.step hp.mem_places, Option.bind_some]
      rfl
    obtain ⟨q, row, hTo, hRow⟩ := hReads (x ++ [b]) List.prefix_rfl (by simp)
    cases hNext : p.next (.byte b) with
    | within p' =>
      rw [hNext] at hStep
      exact ⟨p', hp.concat hNext, hStep⟩
    | after k =>
      rw [hStep, hNext] at hTo
      obtain rfl := Option.some.inj hTo
      rw [h.terminal k] at hRow
      cases hRow

/-- **A match has the one kind that its text matches**, with the symbol behind it. -/
theorem Follows.exists_kind (h : Follows a) {offset : Nat} {rest left : List UInt8} {m : Match}
    (hFinds : a.Finds entry offset rest m left) :
    ∃ k : TokenKind, m.action = k.action ∧
      ∀ k' : TokenKind, k'.Matches m.text (.front left) ↔ k' = k := by
  obtain ⟨row, hRow⟩ := h.dispatch start_mem_places
  rw [number_start] at hRow
  obtain ⟨q, target, hReads, hState, hStep, hAction⟩ := hFinds.exists_stretch hRow
  obtain ⟨p, hp, hPhase⟩ := h.exists_phase hReads
  obtain rfl : number (.within p) = q := Option.some.inj (hPhase.symm.trans hState)
  rw [h.step hp.mem_places] at hStep
  obtain rfl := Option.some.inj hStep
  cases hNext : p.next (.front left) with
  | within p' =>
    have hMem := next_mem_places hp.mem_places (.front left)
    rw [hNext] at hMem hAction
    obtain ⟨row, hRow⟩ := h.dispatch hMem
    simp [Tables.action?, hRow, State.action?] at hAction
  | after k =>
    rw [hNext, Tables.action?, h.terminal k] at hAction
    refine ⟨k, (Option.some.inj hAction).symm, fun k' => ⟨fun hMatches => ?_, ?_⟩⟩
    · obtain ⟨p', hp', hNext'⟩ := Phase.exists_reads_of_matches hMatches
      obtain rfl := hp.unique hp'
      exact (Place.after.inj (hNext.symm.trans hNext')).symm
    · rintro rfl
      exact hp.matches hNext

/-- No byte ends a token that has not begun. -/
theorem Follows.action?_of_byte (h : Follows a) (c : UInt8) (target : StateId)
    (hStep : a.step? entry (.byte c) = some target) : a.action? target = none := by
  rw [← number_start, h.step start_mem_places] at hStep
  obtain rfl : number (.within (.first c)) = target := Option.some.inj hStep
  obtain ⟨row, hNext⟩ := h.dispatch (next_mem_places start_mem_places (.byte c))
  rw [Tables.action?, hNext]
  rfl

/-- **Every text has matches**: both forms find them from every buffer that it remains of. -/
theorem exists_lexes (input : List UInt8) :
    ∃ a found, automaton = .ok a ∧ Follows a ∧ a.Lexes entry 0 input found ∧
      ∀ backend, ∃ e, engine backend = .ok e ∧ ∀ b : ScanBuffer, b.Remains input →
        b.window.position = 0 → (e.lexAll b).1 = .ok found := by
  obtain ⟨a, hAutomaton, h⟩ := exists_automaton
  obtain ⟨row, hRow⟩ := h.dispatch start_mem_places
  rw [number_start] at hRow
  have hLex : ∀ backend (b : ScanBuffer), b.Remains input → b.window.position = 0 →
      ∃ ms, ((Engine.inForm backend a entry).lexAll b).1 = .ok ms ∧ a.Lexes entry 0 input ms := by
    intro backend b hRest hStart
    rw [← hStart]
    exact Engine.collect_lexes_of_reading hRow h.action?_of_byte backend hRest
      (Nat.lt_succ_of_le hRest.length_le_volume)
  obtain ⟨found, -, hFound⟩ := hLex .table _ (ScanBuffer.remains_ofBytes input) rfl
  refine ⟨a, found, hAutomaton, h, hFound, fun backend => ⟨Engine.inForm backend a entry, ?_, ?_⟩⟩
  · rw [engine, hAutomaton]
    exact Engine.ofAutomaton_of_lt (Automaton.lt_size_of_state? hRow) backend
  · intro b hRest hStart
    obtain ⟨ms, hOk, hLexes⟩ := hLex backend b hRest hStart
    rw [hOk, hLexes.unique hFound]

/-- The tokens of a text are read off its matches. -/
theorem tokens_eq_tokensOf {input : List UInt8} {backend : Backend} {e : Engine}
    {found : List Match} (hEngine : engine backend = .ok e)
    (hFound : (e.lexAll (.ofBytes input)).1 = .ok found) :
    tokens input backend = tokensOf input [] found := by
  -- unfolded first, since the kernel would run the assembly to compare the two sides
  have hBody : tokens = tokens := rfl
  conv at hBody => rhs; delta tokens
  rw [hBody]
  simp only [hEngine, hFound]

end Sample

/-- **The lexical structure of the sample grammar.** Every byte string is lexed, by both forms and
however it is cut into chunks, to the same matches, which tile it. Each match has the bytes at its
span for its text, and the action of the one kind that the text, with the symbol behind it,
matches. -/
theorem sample_lexical (input : List UInt8) :
    ∃ found : List Match,
      (∀ backend, ∃ e, Sample.engine backend = .ok e ∧
        (e.lexAll (.ofBytes input)).1 = .ok found ∧
        ∀ start chunks, start ++ Chunk.delivered chunks = input →
          (e.lexAll (.ofSource start (.queue chunks))).1 = .ok found) ∧
      Tiles 0 input found ∧
      ∀ m ∈ found, m.text = (input.take m.span.stop).drop m.span.start ∧
        (∃ k : TokenKind, m.action = k.action) ∧
        ∀ k : TokenKind,
          m.action = k.action ↔ k.Matches m.text (.front (input.drop m.span.stop)) := by
  obtain ⟨a, found, -, h, hLexes, hEngines⟩ := Sample.exists_lexes input
  refine ⟨found, fun backend => ?_, hLexes.tiles, fun m hm => ?_⟩
  · obtain ⟨e, hEngine, hLex⟩ := hEngines backend
    refine ⟨e, hEngine, hLex _ (ScanBuffer.remains_ofBytes input) rfl, ?_⟩
    rintro start chunks rfl
    exact hLex _ (ScanBuffer.remains_ofSource (Source.delivers_queue chunks) start) rfl
  · obtain ⟨before, left, rfl, hFinds⟩ := hLexes.exists_finds hm
    obtain ⟨k, hAction, hKind⟩ := h.exists_kind hFinds
    have hSpan : m.span = ⟨before.length, before.length + m.text.length⟩ := by
      rw [hFinds.span_eq, Nat.zero_add]
    have hLeft : (before ++ (m.text ++ left)).drop m.span.stop = left := by
      rw [hSpan, ← List.append_assoc, ← List.length_append, List.drop_left]
    refine ⟨?_, ⟨k, hAction⟩, fun k' => ?_⟩
    · rw [hSpan, ← List.append_assoc, ← List.length_append, List.take_left, List.drop_left]
    · rw [hLeft, hKind, hAction]
      exact ⟨fun hSame => (TokenKind.action_inj hSame).symm, fun hSame => hSame ▸ rfl⟩

end StreamLexer
