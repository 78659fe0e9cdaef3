import StreamLexer.Proofs.Lexing.Tiling

/-!
# Matches are final

A match is reported when the bytes handed over so far fix it: whatever follows them, the stream has
the same match at that place. And a search that fails, because its source does, had nothing to
report: all bytes handed over are read, and they lead to a state that still reads on.

Both follow from the walk over the bytes handed over, with the end of the stream not in sight. If
it reports an action, bytes behind it change nothing; if it runs dry, it does so at a dispatch state.
So one search for a match is described by such a walk, and several searches by one walk after the
other.

## Main definitions

* `Source.Breaks`: a source hands out some chunks and then fails
* `Engine.nextMatches`: some searches for the next match, one after the other

## Main results

* `Automaton.Walks.exists_stretch_of_refill`: what a walk that runs dry has read
* `Engine.nextMatch_of_breaks`: a search finds a match that is fixed, or fails at a dispatch state
* `Engine.nextMatches_of_breaks`: the matches found are those of every continuation
* `nextMatches_final`: matches are final, and none is held back
-/

namespace StreamLexer

namespace Automaton

variable {a : Automaton} {s q : StateId}

/-- **A walk that runs dry** has read a stretch, which leads to the state where it stops. -/
theorem Walks.exists_stretch_of_refill {atEnd : Bool} {lexeme pending lexeme' left : List UInt8}
    (h : a.Walks atEnd lexeme s pending ⟨.refill q, lexeme', left⟩) :
    lexeme' = pending.reverse ++ lexeme ∧ a.ReadsOn s pending ∧ a.stepAll? s pending = some q ∧
      ∃ row, a.state? q = some (.dispatch row) := by
  generalize hr : (⟨.refill q, lexeme', left⟩ : Walk (Outcome StateId)) = r at h
  induction h with
  | terminal => cases hr
  | @dry lexeme s row _ hState =>
    cases hr
    exact ⟨rfl, readsOn_nil, rfl, row, hState⟩
  | finish => cases hr
  | report => cases hr
  | @read lexeme s row b rest target r _ hStep hAction hWalk ih =>
    obtain ⟨row', hTarget⟩ := state?_of_action?_eq_none hWalk.lt_size hAction
    obtain ⟨hLexeme, hReads, hTo, hRow⟩ := ih hr
    refine ⟨?_, hReads.cons hStep hTarget, ?_, hRow⟩
    · rw [hLexeme, List.reverse_cons, List.append_assoc]
      rfl
    · rw [stepAll?_cons, hStep, Option.bind_some, hTo]

end Automaton

/-! ### Sources that fail -/

/-- The source hands out the chunks, none of which ends the stream, and then fails. -/
inductive Source.Breaks : Source → List Chunk → List String → Prop
  | failure {s t : Source} {causes : List String} :
      s.supply = (.failure causes, t) → Breaks s [] causes
  | chunk {s t : Source} {c : Chunk} {chunks : List Chunk} {causes : List String} :
      s.supply = (.chunk c, t) → c.final = false → Breaks t chunks causes →
      Breaks s (c :: chunks) causes

/-- A script of chunks, none of which is final, with a failure behind them. -/
theorem Source.breaks_script {chunks : List Chunk} (hMore : ∀ c ∈ chunks, c.final = false)
    (causes : List String) (later : List Delivery) (ending : Ending) :
    (script (chunks.map .chunk ++ .failure causes :: later) ending).Breaks chunks causes := by
  induction chunks with
  | nil => exact .failure rfl
  | cons c chunks ih =>
    obtain ⟨hFirst, hOthers⟩ := List.forall_mem_cons.mp hMore
    exact .chunk rfl hFirst (ih hOthers)

namespace ScanBuffer

/-- The end of the stream is not in sight, and the source hands out the chunks and then fails. -/
structure Breaks (b : ScanBuffer) (chunks : List Chunk) (causes : List String) : Prop where
  atEnd : b.window.atEnd = false
  source : b.source.Breaks chunks causes

variable {b : ScanBuffer} {c : Chunk} {chunks : List Chunk} {causes : List String}

/-- With no chunk left, a refill fails. It changes neither the lexeme nor what waits. -/
theorem Breaks.refill_nil (h : b.Breaks [] causes) :
    ∃ b', b.refill = (.error (.rawInput causes), b') ∧ b'.window.lexeme = b.window.lexeme ∧
      b'.window.pending = b.window.pending ∧ b'.refills = b.refills := by
  cases h.source with
  | failure hSupply =>
    rcases b.refill_cases with ⟨hEnd, -⟩ | ⟨causes', source, -, hSupply', hRefill⟩ |
      ⟨chunk, source, -, hSupply', -⟩
    · rw [h.atEnd] at hEnd
      cases hEnd
    · obtain ⟨hDelivery, -⟩ := Prod.mk.inj (hSupply.symm.trans hSupply')
      cases hDelivery
      exact ⟨_, hRefill, rfl, rfl, rfl⟩
    · rw [hSupply] at hSupply'
      cases hSupply'

/-- Otherwise a refill takes in the next chunk. -/
theorem Breaks.refill_cons (h : b.Breaks (c :: chunks) causes) :
    ∃ r b', b.refill = (.ok r, b') ∧ b'.Breaks chunks causes ∧
      b'.window.pending = b.window.pending ++ c.bytes ∧ b'.refills = b.refills + 1 := by
  cases h.source with
  | chunk hSupply hFinal hRest =>
    rcases b.refill_cases with ⟨hEnd, -⟩ | ⟨causes', source, -, hSupply', -⟩ |
      ⟨chunk, source, -, hSupply', hRefill⟩
    · rw [h.atEnd] at hEnd
      cases hEnd
    · rw [hSupply] at hSupply'
      cases hSupply'
    · rw [hSupply] at hSupply'
      cases hSupply'
      refine ⟨_, _, hRefill, ⟨?_, hRest⟩, rfl, rfl⟩
      simp [receive, afterAsking, Window.append, Window.dropSpent, h.atEnd, hFinal]

end ScanBuffer

/-! ### Searches for a match -/

namespace Engine

/-- Searches for the next match so many times, one after the other. -/
def nextMatches (e : Engine) :
    Nat → ScanBuffer → Except LexError (List Match) × ScanBuffer
  | 0, b => (.ok [], b)
  | n + 1, b =>
    match e.nextMatch b with
    | (.error error, b) => (.error error, b)
    | (.ok m, b) =>
      match nextMatches e n b with
      | (.error error, b) => (.error error, b)
      | (.ok ms, b) => (.ok (m :: ms), b)

theorem nextMatches_succ_eq_ok {e : Engine} {n : Nat} {b b' : ScanBuffer} {ms : List Match}
    (h : e.nextMatches (n + 1) b = (.ok ms, b')) :
    ∃ m b'' ms', e.nextMatch b = (.ok m, b'') ∧ e.nextMatches n b'' = (.ok ms', b') ∧
      ms = m :: ms' := by
  rw [nextMatches] at h
  rcases hMatch : e.nextMatch b with ⟨error | m, b''⟩
  · rw [hMatch] at h
    cases h
  · rcases hMore : e.nextMatches n b'' with ⟨error | ms', c⟩
    · simp [hMatch, hMore] at h
    · simp only [hMatch, hMore, Prod.mk.injEq, Except.ok.injEq] at h
      obtain ⟨rfl, rfl⟩ := h
      exact ⟨m, b'', ms', rfl, hMore, rfl⟩

variable {a : Automaton} {entry s : StateId} {b : ScanBuffer} {chunks : List Chunk}
  {causes : List String}

/-- A scan that reports an action finds a match that is fixed by the bytes in the window. -/
theorem exists_match_of_scan {e : Engine} {point : ResumePoint} {action : ActionId}
    {lexeme pending : List UInt8} (h : b.Breaks chunks causes)
    (hWalks : a.Walks b.window.atEnd b.window.lexeme s b.window.pending
      ⟨.matched action, lexeme, pending⟩)
    (hRun : e.run b.window point = (.ok (.matched action), b.window.reached lexeme pending)) :
    ∃ m b', e.matchFrom point b = (.ok m, b') ∧
      a.Walks false b.window.lexeme s b.window.pending
        ⟨.matched m.action, m.text.reverse, b'.window.pending⟩ ∧
      m.span = ⟨b.window.lexemeStart, b.window.lexemeStart + m.text.length⟩ ∧
      b'.Breaks chunks causes ∧ b'.refills = b.refills ∧ b'.window.position = m.span.stop := by
  refine ⟨_, _, matchFrom_of_matched hRun, ?_, ?_, ⟨h.atEnd, h.source⟩, rfl,
    Window.position_beginLexeme _⟩
  · rw [h.atEnd] at hWalks
    simpa [matchOf, Window.text, Window.reached, Window.beginLexeme] using hWalks
  · simp [matchOf, Window.span, Window.position, Window.text, Window.reached]

/-- **Going on from a state finds a match that is fixed, or fails at a dispatch state.** The walk
over the bytes handed over says which. -/
theorem matchFrom_of_breaks (hs : s.toNat < a.size) (backend : Backend) (entry : StateId)
    (h : b.Breaks chunks causes) :
    (∃ taken later m b', chunks = taken ++ later ∧
      (inForm backend a entry).matchFrom (backend.point s) b = (.ok m, b') ∧
      a.Walks false b.window.lexeme s (b.window.pending ++ taken.flatMap Chunk.bytes)
        ⟨.matched m.action, m.text.reverse, b'.window.pending⟩ ∧
      m.span = ⟨b.window.lexemeStart, b.window.lexemeStart + m.text.length⟩ ∧
      b'.Breaks later causes ∧ b'.refills = b.refills + taken.length ∧
      b'.window.position = m.span.stop) ∨
    ∃ q b',
      (inForm backend a entry).matchFrom (backend.point s) b = (.error (.rawInput causes), b') ∧
      a.Walks false b.window.lexeme s (b.window.pending ++ chunks.flatMap Chunk.bytes)
        ⟨.refill q, b'.window.lexeme, []⟩ ∧
      b'.window.pending = [] ∧ b'.refills = b.refills + chunks.length := by
  induction chunks generalizing s b with
  | nil =>
    rcases scan_cases hs backend entry b.window with
      ⟨action, lexeme, pending, hWalks, hRun⟩ | ⟨q, row, lexeme, hEnd, hRow, hWalks, hRun⟩
    · obtain ⟨m, b', hMatch, hFixed, hRest⟩ := exists_match_of_scan h hWalks hRun
      exact .inl ⟨[], [], m, b', rfl, hMatch, by simpa using hFixed, hRest⟩
    · have hDry : ScanBuffer.Breaks { b with window := b.window.reached lexeme [] } [] causes :=
        ⟨h.atEnd, h.source⟩
      obtain ⟨b', hRefill, hLexeme, hPending, hRefills⟩ := hDry.refill_nil
      refine .inr ⟨q, b', matchFrom_of_refill_error hRun hEnd hRefill, ?_, hPending, hRefills⟩
      rw [hLexeme]
      simpa [Window.reached] using hWalks
  | cons c chunks ih =>
    rcases scan_cases hs backend entry b.window with
      ⟨action, lexeme, pending, hWalks, hRun⟩ | ⟨q, row, lexeme, hEnd, hRow, hWalks, hRun⟩
    · obtain ⟨m, b', hMatch, hFixed, hRest⟩ := exists_match_of_scan h hWalks hRun
      exact .inl ⟨[], c :: chunks, m, b', rfl, hMatch, by simpa using hFixed, hRest⟩
    · have hDry : ScanBuffer.Breaks { b with window := b.window.reached lexeme [] } (c :: chunks)
          causes := ⟨h.atEnd, h.source⟩
      obtain ⟨r, b', hRefill, hNext, hPending, hTaken⟩ := hDry.refill_cons
      have hRefills : b'.refills = b.refills + 1 := hTaken
      have hLexeme : b'.window.lexeme = lexeme := ScanBuffer.lexeme_of_refill hRefill
      have hStart : b'.window.lexemeStart = b.window.lexemeStart :=
        (ScanBuffer.lexemeStart_of_refill hRefill).trans rfl
      have hBytes : b'.window.pending = c.bytes := hPending
      rw [matchFrom_of_refill_ok hRun hEnd hRefill]
      rcases ih (Automaton.lt_size_of_state? hRow) hNext with
        ⟨taken, later, m, b'', rfl, hMatch, hMore, hSpan, hLater, hCount, hPosition⟩ |
        ⟨q', b'', hMatch, hMore, hPending', hCount⟩
      · rw [hLexeme, hBytes] at hMore
        rw [hStart] at hSpan
        refine .inl ⟨c :: taken, later, m, b'', rfl, hMatch, hWalks.append_of_refill hMore, hSpan,
          hLater, ?_, hPosition⟩
        rw [hCount, hRefills, List.length_cons]
        omega
      · rw [hLexeme, hBytes] at hMore
        refine .inr ⟨q', b'', hMatch, hWalks.append_of_refill hMore, hPending', ?_⟩
        rw [hCount, hRefills, List.length_cons]
        omega

/-- **A search finds a match that is fixed, or fails at a dispatch state.** The match is the one at
its place in every continuation of the bytes handed over. -/
theorem nextMatch_of_breaks (hEntry : entry.toNat < a.size) (backend : Backend)
    (h : b.Breaks chunks causes) :
    (∃ taken later m b', chunks = taken ++ later ∧
      (inForm backend a entry).nextMatch b = (.ok m, b') ∧
      (∀ more, a.Finds entry b.window.position
        (b.window.pending ++ taken.flatMap Chunk.bytes ++ more) m (b'.window.pending ++ more)) ∧
      b'.Breaks later causes ∧ b'.refills = b.refills + taken.length ∧
      b'.window.position = b.window.position + m.text.length) ∨
    ∃ q row b', (inForm backend a entry).nextMatch b = (.error (.rawInput causes), b') ∧
      b'.window.text = b.window.pending ++ chunks.flatMap Chunk.bytes ∧
      b'.window.pending = [] ∧ b'.refills = b.refills + chunks.length ∧
      a.ReadsOn entry b'.window.text ∧ a.stepAll? entry b'.window.text = some q ∧
      a.state? q = some (.dispatch row) := by
  have hBegin : b.beginLexeme.Breaks chunks causes := ⟨h.atEnd, h.source⟩
  rw [nextMatch, entry_inForm]
  rcases matchFrom_of_breaks hEntry backend entry hBegin with
    ⟨taken, later, m, b', hChunks, hMatch, hWalks, hSpan, hLater, hCount, hPosition⟩ |
    ⟨q, b', hMatch, hWalks, hPending, hCount⟩
  · refine .inl ⟨taken, later, m, b', hChunks, hMatch, fun more => ⟨hSpan, ?_⟩, hLater, hCount, ?_⟩
    · exact hWalks.append_of_matched true more
    · rw [hPosition, hSpan]
      rfl
  · obtain ⟨hLexeme, hReads, hTo, row, hRow⟩ := hWalks.exists_stretch_of_refill
    have hText : b'.window.text = b.window.pending ++ chunks.flatMap Chunk.bytes := by
      rw [Window.text, hLexeme]
      simp [ScanBuffer.beginLexeme, Window.beginLexeme]
    refine .inr ⟨q, row, b', hMatch, hText, hPending, hCount, ?_, ?_, hRow⟩
    · rw [hText]
      exact hReads
    · rw [hText]
      exact hTo

/-- **The matches found are those of every continuation** of the bytes handed over. -/
theorem nextMatches_of_breaks (hEntry : entry.toNat < a.size) (backend : Backend) {n : Nat}
    {ms : List Match} {b' : ScanBuffer} (h : b.Breaks chunks causes)
    (hMatches : (inForm backend a entry).nextMatches n b = (.ok ms, b')) :
    ∃ taken later, chunks = taken ++ later ∧ b'.Breaks later causes ∧
      b'.refills = b.refills + taken.length ∧
      b.window.pending ++ taken.flatMap Chunk.bytes = ms.flatMap Match.text ++ b'.window.pending ∧
      ∀ more c, ScanBuffer.Remains c (b.window.pending ++ taken.flatMap Chunk.bytes ++ more) →
        c.window.position = b.window.position →
        ((inForm backend a entry).nextMatches n c).1 = .ok ms := by
  induction n generalizing b chunks ms with
  | zero =>
    cases hMatches
    refine ⟨[], chunks, rfl, h, rfl, ?_, fun _ _ _ _ => rfl⟩
    rw [List.flatMap_nil, List.append_nil]
    rfl
  | succ n ih =>
    obtain ⟨m, b₁, ms, hMatch, hRest, rfl⟩ := nextMatches_succ_eq_ok hMatches
    rcases nextMatch_of_breaks hEntry backend h with
      ⟨taken₁, later₁, m', b₁', rfl, hMatch', hFinds, hLater, hCount, hPosition⟩ |
      ⟨q, row, b₁', hMatch', -⟩
    · obtain ⟨hm, rfl⟩ := Prod.mk.inj (hMatch.symm.trans hMatch')
      obtain rfl := Except.ok.inj hm
      obtain ⟨taken, later, rfl, hBreaks, hCount', hBytes, hSame⟩ := ih hLater hRest
      refine ⟨taken₁ ++ taken, later, (List.append_assoc ..).symm, hBreaks, ?_, ?_, ?_⟩
      · rw [hCount', hCount, List.length_append, Nat.add_assoc]
      · have hFirst := (hFinds (taken.flatMap Chunk.bytes)).text_append_left
        rw [List.flatMap_append, ← List.append_assoc, ← hFirst, hBytes, List.flatMap_cons,
          List.append_assoc]
      · intro more c hRemains hPlace
        have hFinds' := hFinds (taken.flatMap Chunk.bytes ++ more)
        simp only [List.flatMap_append, ← List.append_assoc] at hRemains hFinds'
        obtain ⟨m', left, c', hFound, hNext, hLeft, hPlace', -⟩ :=
          nextMatch_finds hEntry backend hRemains
        rw [hPlace] at hFound
        obtain ⟨rfl, rfl⟩ := hFinds'.unique hFound
        have hOthers := hSame more c' hLeft (by rw [hPlace', hPlace, hPosition])
        rcases hTail : (inForm backend a entry).nextMatches n c' with ⟨error | ms', c''⟩
        · rw [hTail] at hOthers
          cases hOthers
        · rw [hTail] at hOthers
          obtain rfl := Except.ok.inj hOthers
          simp only [nextMatches, hNext, hTail]
    · rw [hMatch] at hMatch'
      cases hMatch'

end Engine

/-- **Matches are final, and none is held back.** Let a source hand out chunks, none of which ends
the stream, and then fail. After any number of matches, these are the first matches of every input
that begins with the bytes handed over till then, whatever follows them. If the next search fails,
it fails as the source does: all bytes handed over are read, the lexeme in progress holds those
behind the matches, and the entry reads on over it, to a state that reads on. -/
theorem nextMatches_final {a : Automaton} {entry : StateId} (hEntry : entry.toNat < a.size)
    (backend : Backend) (first : List UInt8) {source : Source} {chunks : List Chunk}
    {causes : List String} (hSource : source.Breaks chunks causes) :
    ∃ e, Engine.ofAutomaton backend a entry = .ok e ∧
      ∀ n ms b, e.nextMatches n (.ofSource first source) = (.ok ms, b) →
        (∀ more, (e.nextMatches n
          (.ofBytes (first ++ (chunks.take b.refills).flatMap Chunk.bytes ++ more))).1 = .ok ms) ∧
        ∀ error b', e.nextMatch b = (.error error, b') →
          error = .rawInput causes ∧ b'.refills = chunks.length ∧ b'.window.pending = [] ∧
          first ++ chunks.flatMap Chunk.bytes = ms.flatMap Match.text ++ b'.window.text ∧
          a.ReadsOn entry b'.window.text ∧
          ∃ q row, a.stepAll? entry b'.window.text = some q ∧
            a.state? q = some (.dispatch row) := by
  refine ⟨_, Engine.ofAutomaton_of_lt hEntry backend, fun n ms b hMatches => ?_⟩
  have hOpen : (ScanBuffer.ofSource first source).Breaks chunks causes := ⟨rfl, hSource⟩
  obtain ⟨taken, later, rfl, hLater, hCount, hBytes, hSame⟩ :=
    Engine.nextMatches_of_breaks hEntry backend hOpen hMatches
  have hRefills : b.refills = taken.length := by
    rw [hCount]
    exact Nat.zero_add _
  constructor
  · intro more
    rw [hRefills, List.take_left]
    exact hSame more _ (ScanBuffer.remains_ofBytes _) rfl
  · intro error b' hFails
    rcases Engine.nextMatch_of_breaks hEntry backend hLater with
      ⟨-, -, m, c, -, hMatch, -⟩ | ⟨q, row, c, hMatch, hText, hPending, hCount', hReads, hTo, hRow⟩
    · rw [hFails] at hMatch
      cases hMatch
    · rw [hFails] at hMatch
      cases hMatch
      refine ⟨rfl, ?_, hPending, ?_, hReads, q, row, hTo, hRow⟩
      · rw [hCount', hRefills, List.length_append]
      · have hWhole : first ++ taken.flatMap Chunk.bytes =
          ms.flatMap Match.text ++ b.window.pending := hBytes
        rw [hText, List.flatMap_append, ← List.append_assoc, hWhole, List.append_assoc]

/-- A source that fails in the middle of a word. -/
def brokenOff : Source := .script [.chunk (.more [98, 32, 99]), .failure ["gone"]] .finish

theorem brokenOff_breaks : brokenOff.Breaks [.more [98, 32, 99]] ["gone"] :=
  Source.breaks_script (List.forall_mem_singleton.mpr rfl) ["gone"] [] .finish

/-- A buffer that has taken in the chunk of `brokenOff`, with its lexeme at `start`. -/
def ofBrokenOff (start : Nat) (spent lexeme pending : List UInt8) (h : spent.length ≤ start) :
    ScanBuffer :=
  ⟨⟨start, spent, lexeme, pending, false, h⟩, .script [.failure ["gone"]] .finish, 1, 1,
    [⟨1, 3, 1, false⟩]⟩

theorem nextMatch_brokenOff :
    (Engine.table Automaton.words 0).nextMatch (.ofSource [97] brokenOff) =
      (.ok ⟨2, ⟨0, 2⟩, [97, 98]⟩, ofBrokenOff 2 [98, 97] [] [32, 99] (by decide)) := by
  have hDry : (Engine.table Automaton.words 0).run
      (ScanBuffer.ofSource [97] brokenOff).beginLexeme.window (.state 0) =
      (.ok (.refill (.state 2)), ⟨0, [], [97], [], false, by decide⟩) := rfl
  have hFound : (Engine.table Automaton.words 0).run ⟨0, [], [97], [98, 32, 99], false, by decide⟩
      (.state 2) = (.ok (.matched 2), ⟨0, [], [98, 97], [32, 99], false, by decide⟩) := rfl
  rw [Engine.nextMatch, Engine.entry, Engine.matchFrom_of_refill_ok hDry rfl rfl]
  exact Engine.matchFrom_of_matched (b := ofBrokenOff 0 [] [97] [98, 32, 99] (by decide)) hFound

/-- A word and a blank are found, whatever follows the word that is broken off. -/
theorem nextMatches_final_words :
    (0 : StateId).toNat < Automaton.words.size ∧ brokenOff.Breaks [.more [98, 32, 99]] ["gone"] ∧
      ∃ e b b', Engine.ofAutomaton .table Automaton.words 0 = .ok e ∧
        e.nextMatches 2 (.ofSource [97] brokenOff) =
          (.ok [⟨2, ⟨0, 2⟩, [97, 98]⟩, ⟨1, ⟨2, 3⟩, [32]⟩], b) ∧
        e.nextMatch b = (.error (.rawInput ["gone"]), b') ∧
        (∀ more, (e.nextMatches 2 (.ofBytes ([97, 98, 32, 99] ++ more))).1 =
          .ok [⟨2, ⟨0, 2⟩, [97, 98]⟩, ⟨1, ⟨2, 3⟩, [32]⟩]) ∧
        ∃ q row, Automaton.words.stepAll? 0 [99] = some q ∧
          Automaton.words.state? q = some (.dispatch row) := by
  have hEntry : (0 : StateId).toNat < Automaton.words.size := by decide
  obtain ⟨e, hEngine, hFinal⟩ := nextMatches_final hEntry .table [97] brokenOff_breaks
  obtain ⟨-, rfl⟩ := Engine.ofAutomaton_eq_ok_iff.mp hEngine
  have hRun : (Engine.table Automaton.words 0).run ⟨2, [98, 97], [], [32, 99], false, by decide⟩
      (.state 0) = (.ok (.matched 1), ⟨2, [98, 97], [32], [99], false, by decide⟩) := rfl
  have hBlank : (Engine.table Automaton.words 0).nextMatch
      (ofBrokenOff 2 [98, 97] [] [32, 99] (by decide)) =
      (.ok ⟨1, ⟨2, 3⟩, [32]⟩, ofBrokenOff 3 [32, 98, 97] [] [99] (by decide)) :=
    Engine.matchFrom_of_matched
      (b := (ofBrokenOff 2 [98, 97] [] [32, 99] (by decide)).beginLexeme) hRun
  have hMatches : (Engine.table Automaton.words 0).nextMatches 2 (.ofSource [97] brokenOff) =
      (.ok [⟨2, ⟨0, 2⟩, [97, 98]⟩, ⟨1, ⟨2, 3⟩, [32]⟩],
        ofBrokenOff 3 [32, 98, 97] [] [99] (by decide)) := by
    simp only [Engine.nextMatches, nextMatch_brokenOff, hBlank]
  have hDry : (Engine.table Automaton.words 0).run ⟨3, [32, 98, 97], [], [99], false, by decide⟩
      (.state 0) = (.ok (.refill (.state 2)), ⟨3, [32, 98, 97], [99], [], false, by decide⟩) := rfl
  have hBroken : (Engine.table Automaton.words 0).nextMatch
      (ofBrokenOff 3 [32, 98, 97] [] [99] (by decide)) =
      (.error (.rawInput ["gone"]), ⟨⟨3, [], [99], [], false, by decide⟩,
        .script [] .finish, 1, 2, [⟨1, 3, 1, false⟩]⟩) :=
    Engine.matchFrom_of_refill_error hDry rfl rfl
  obtain ⟨hAlways, hNone⟩ := hFinal 2 _ _ hMatches
  obtain ⟨-, -, -, -, -, q, row, hTo, hRow⟩ := hNone _ _ hBroken
  exact ⟨hEntry, brokenOff_breaks, _, _, _, hEngine, hMatches, hBroken, hAlways, q, row, hTo, hRow⟩

end StreamLexer
