import StreamLexer.Proofs.Lexing.Causality

/-!
# Refills between matches

A search refills the buffer where its window runs dry, and nobody has to. Whoever refills all the
same, before a match or after it, with bytes still waiting to be read and as often as he likes,
moves bytes from the source to the window earlier than the search would: what remains of the stream
stays the same, and so do its matches.

## Main definitions

* `Request`, `Engine.serve`: refills and searches for a match, in any order

## Main results

* `Engine.serve_of_remains`: the matches found between refills
* `serve_queue`: they are those of a stream given up front
-/

namespace StreamLexer

/-- What is asked of a buffer. -/
inductive Request where
  /-- Takes in one delivery. -/
  | refill
  /-- Finds the next match. -/
  | nextMatch
deriving DecidableEq, Repr

namespace Engine

/-- Meets requests on one buffer, one after the other and up to the first that fails, and collects
the matches found. -/
def serve (e : Engine) :
    List Request → ScanBuffer → Except LexError (List Match) × ScanBuffer
  | [], b => (.ok [], b)
  | .refill :: requests, b =>
    match b.refill with
    | (.error error, b) => (.error error, b)
    | (.ok _, b) => serve e requests b
  | .nextMatch :: requests, b =>
    match e.nextMatch b with
    | (.error error, b) => (.error error, b)
    | (.ok m, b) =>
      match serve e requests b with
      | (.error error, b) => (.error error, b)
      | (.ok ms, b) => (.ok (m :: ms), b)

variable {e : Engine} {b b' b'' : ScanBuffer} {m : Match} {ms : List Match}
  {requests : List Request}

theorem serve_refill {r : Option Refill} (h : b.refill = (.ok r, b')) :
    e.serve (.refill :: requests) b = e.serve requests b' := by
  rw [serve, h]

theorem serve_nextMatch (hMatch : e.nextMatch b = (.ok m, b'))
    (hMore : e.serve requests b' = (.ok ms, b'')) :
    e.serve (.nextMatch :: requests) b = (.ok (m :: ms), b'') := by
  rw [serve, hMatch]
  dsimp only
  rw [hMore]

theorem nextMatches_succ {n : Nat} (hMatch : e.nextMatch b = (.ok m, b'))
    (hMore : e.nextMatches n b' = (.ok ms, b'')) :
    e.nextMatches (n + 1) b = (.ok (m :: ms), b'') := by
  rw [nextMatches, hMatch]
  dsimp only
  rw [hMore]

variable {a : Automaton} {entry : StateId} {c : ScanBuffer} {rest : List UInt8}

/-- **Refills between matches do not show.** On two buffers that stand at the same place before the
same bytes, the searches find the same matches, with refills between them and without. -/
theorem serve_of_remains (hEntry : entry.toNat < a.size) (backend : Backend)
    (requests : List Request) (hRest : b.Remains rest) (hRest' : c.Remains rest)
    (hPosition : b.window.position = c.window.position) :
    ∃ ms b' c', (inForm backend a entry).serve requests b = (.ok ms, b') ∧
      (inForm backend a entry).nextMatches (requests.count .nextMatch) c = (.ok ms, c') ∧
      ms.length = requests.count .nextMatch := by
  induction requests generalizing b c rest with
  | nil => exact ⟨[], b, c, rfl, rfl, rfl⟩
  | cons request requests ih =>
    cases request with
    | refill =>
      obtain ⟨r, b₁, hRefill, hRest₁⟩ := hRest.refill
      have hPosition₁ : b₁.window.position = c.window.position := by
        rw [← hPosition, Window.position, ScanBuffer.lexemeStart_of_refill hRefill,
          ScanBuffer.lexeme_of_refill hRefill, Window.position]
      rw [serve_refill hRefill, List.count_cons_of_ne (by decide)]
      exact ih hRest₁ hRest' hPosition₁
    | nextMatch =>
      obtain ⟨m, left, b₁, hFinds, hMatch, hLeft, hPlace, -⟩ :=
        nextMatch_finds hEntry backend hRest
      obtain ⟨m', left', c₁, hFinds', hMatch', hLeft', hPlace', -⟩ :=
        nextMatch_finds hEntry backend hRest'
      rw [hPosition] at hFinds hPlace
      obtain ⟨rfl, rfl⟩ := hFinds.unique hFinds'
      obtain ⟨ms, b₂, c₂, hServe, hMatches, hLength⟩ :=
        ih hLeft hLeft' (hPlace.trans hPlace'.symm)
      rw [List.count_cons_self]
      exact ⟨m :: ms, b₂, c₂, serve_nextMatch hMatch hServe, nextMatches_succ hMatch' hMatches,
        congrArg (· + 1) hLength⟩

end Engine

/-- **Refilling ahead of need is harmless.** Let a stream begin with some bytes and go on with
chunks, and let refills and searches for the next match be asked of its buffer in any order: any
number of refills before, between and behind the matches, and any number of searches, also behind
the end of the stream. Nothing fails, and the matches found are, one by one, the first matches of
the same stream given up front: the same actions, spans and texts. The entry may be any state. -/
theorem serve_queue {a : Automaton} {entry : StateId} (hEntry : entry.toNat < a.size)
    (backend : Backend) (first : List UInt8) (chunks : List Chunk) (requests : List Request) :
    ∃ e, Engine.ofAutomaton backend a entry = .ok e ∧
      ∃ ms, (e.serve requests (.ofSource first (.queue chunks))).1 = .ok ms ∧
        (e.nextMatches (requests.count .nextMatch)
          (.ofBytes (first ++ Chunk.delivered chunks))).1 = .ok ms ∧
        ms.length = requests.count .nextMatch := by
  have hCut := ScanBuffer.remains_ofSource (Source.delivers_queue chunks) first
  have hWhole := ScanBuffer.remains_ofBytes (first ++ Chunk.delivered chunks)
  obtain ⟨ms, b, c, hServe, hMatches, hLength⟩ :=
    Engine.serve_of_remains hEntry backend requests hCut hWhole rfl
  refine ⟨_, Engine.ofAutomaton_of_lt hEntry backend, ms, ?_, ?_, hLength⟩
  · rw [hServe]
  · rw [hMatches]

/-- The end of the stream is taken in before the first match, and searched behind the last one. -/
theorem serve_queue_words :
    (0 : StateId).toNat < Automaton.words.size ∧
      ∃ e, Engine.ofAutomaton .direct Automaton.words 0 = .ok e ∧
        ∃ ms, (e.serve [.refill, .refill, .nextMatch, .refill, .nextMatch, .nextMatch, .nextMatch]
            (.ofSource [97] (.queue [.more [98], .last [32]]))).1 = .ok ms ∧
          (e.nextMatches 4 (.ofBytes [97, 98, 32])).1 = .ok ms ∧ ms.length = 4 := by
  have hEntry : (0 : StateId).toNat < Automaton.words.size := by decide
  exact ⟨hEntry, serve_queue hEntry .direct [97] [.more [98], .last [32]]
    [.refill, .refill, .nextMatch, .refill, .nextMatch, .nextMatch, .nextMatch]⟩

end StreamLexer
