import StreamLexer.Proofs.Lexing.EndOfStream

/-!
# Where batch lexing gets stuck

An entry that reads on refuses a byte if the byte leads it to a terminal. A lexeme before such a
byte would be empty, and the same one would be found again for ever. Batch lexing fails exactly if
it comes, at the end of one longest stretch after the other, to a byte that the entry refuses, and
it reports where this byte stands. So it lexes every stream exactly if the entry refuses no byte.

## Main definitions

* `Automaton.Boundary`: the places where the longest stretches, one behind the other, begin and end
* `Automaton.Refuses`: a byte leads to a terminal
* `Automaton.StuckAt`: a boundary before a byte that is refused

## Main results

* `Automaton.UpToEmpty.stuckAt_iff`: the first empty match stands where lexing gets stuck
* `Engine.lexAll_stuckAt`: batch lexing succeeds or gets stuck, whatever remains
* `lexAll_fails_iff`: when batch lexing fails, and when it never does
-/

namespace StreamLexer

namespace Automaton

/-- The places of a text where lexemes begin and end: its start, and behind the longest stretch each
boundary of what is left. -/
inductive Boundary (a : Automaton) (s : StateId) : List UInt8 → Nat → Prop
  | start {rest} : Boundary a s rest 0
  | next {x left n} :
      a.Longest s (x ++ left) x → Boundary a s left n → Boundary a s (x ++ left) (x.length + n)

/-- The byte leads the state to a terminal. -/
def Refuses (a : Automaton) (s : StateId) (c : UInt8) : Prop :=
  ∃ target action, a.step? s (.byte c) = some target ∧ a.action? target = some action

/-- The place is a boundary before the end of the text, and the state refuses the byte there. -/
def StuckAt (a : Automaton) (s : StateId) (text : List UInt8) (n : Nat) : Prop :=
  a.Boundary s text n ∧ ∃ c, text[n]? = some c ∧ a.Refuses s c

variable {a : Automaton} {s : StateId} {offset n : Nat} {rest left x : List UInt8} {c : UInt8}
  {m : Match} {ms : List Match} {row : Array StateId}

/-- A state reads on over no byte that it refuses. -/
theorem Refuses.not_readsOn (h : a.Refuses s c) : ¬ a.ReadsOn s (c :: x) := by
  obtain ⟨target, action, hStep, hAction⟩ := h
  intro hReads
  obtain ⟨q, row, hState, hRow⟩ := hReads [c] (List.prefix_append [c] x) (List.cons_ne_nil c [])
  rw [stepAll?_cons, hStep, Option.bind_some] at hState
  obtain rfl := Option.some.inj hState
  rw [Tables.action?, hRow] at hAction
  cases hAction

/-- Where the longest stretch is empty, no boundary follows. -/
theorem Boundary.eq_zero (h : a.Boundary s rest n) (hLongest : a.Longest s rest []) : n = 0 := by
  induction h with
  | start => rfl
  | @next x left n hNext _ ih =>
    obtain rfl := hLongest.unique hNext
    rw [ih hLongest]
    rfl

/-- **Behind a stretch with bytes, one gets stuck where one does in what is left.** -/
theorem stuckAt_append_iff (hLongest : a.Longest s (x ++ left) x) (hx : x ≠ []) :
    a.StuckAt s (x ++ left) n ↔ ∃ k, n = x.length + k ∧ a.StuckAt s left k := by
  have hShift : ∀ k, (x ++ left)[x.length + k]? = left[k]? := fun k => by
    rw [List.getElem?_append_right (Nat.le_add_right _ _), Nat.add_sub_cancel_left]
  constructor
  · rintro ⟨hBoundary, c, hByte, hRefuses⟩
    generalize hText : x ++ left = text at hBoundary
    cases hBoundary with
    | start =>
      obtain ⟨b, x, rfl⟩ := List.exists_cons_of_ne_nil hx
      obtain rfl : b = c := Option.some.inj hByte
      exact absurd hLongest.readsOn hRefuses.not_readsOn
    | @next x' left' k hNext hLeft =>
      rw [← hText] at hNext
      obtain rfl := hLongest.unique hNext
      obtain rfl := List.append_cancel_left hText
      exact ⟨k, rfl, hLeft, c, (hShift k).symm.trans hByte, hRefuses⟩
  · rintro ⟨k, rfl, hLeft, c, hByte, hRefuses⟩
    exact ⟨.next hLongest hLeft, c, (hShift k).trans hByte, hRefuses⟩

/-- A match from a state that reads on has the longest stretch for its bytes. -/
theorem Finds.longest (hs : a.state? s = some (.dispatch row)) (h : a.Finds s offset rest m left) :
    a.Longest s rest m.text := by
  obtain ⟨q, target, hReads, hState, hStep, hAction⟩ := h.exists_stretch hs
  rw [← h.text_append_left]
  exact longest_of_action hReads hState hStep hAction

/-- **A match is empty before a byte** exactly if the byte is refused. -/
theorem Finds.text_eq_nil_iff (hs : a.state? s = some (.dispatch row))
    (h : a.Finds s offset (c :: rest) m left) : m.text = [] ↔ a.Refuses s c := by
  constructor
  · intro hText
    obtain ⟨q, target, -, hState, hStep, hAction⟩ := h.exists_stretch hs
    obtain rfl := h.eq_left hText
    rw [hText] at hState
    obtain rfl : s = q := Option.some.inj hState
    exact ⟨target, m.action, hStep, hAction⟩
  · intro hRefuses
    by_contra hText
    obtain ⟨b, x, hBytes⟩ := List.exists_cons_of_ne_nil hText
    have hSplit := h.text_append_left
    rw [hBytes] at hSplit
    obtain ⟨rfl, -⟩ := List.cons.inj hSplit
    have hReads := (h.longest hs).readsOn
    rw [hBytes] at hReads
    exact hRefuses.not_readsOn hReads

theorem UpToEmpty.le_start (h : a.UpToEmpty s offset rest ms m left) : offset ≤ m.span.start := by
  induction h with
  | empty hFinds _ => rw [hFinds.span_eq]
  | next _ _ _ ih => exact Nat.le_trans (Nat.le_add_right _ _) ih

/-- **The first empty match stands where lexing gets stuck**, unless nothing is left there. -/
theorem UpToEmpty.stuckAt_iff (hs : a.state? s = some (.dispatch row))
    (h : a.UpToEmpty s offset rest ms m left) :
    a.StuckAt s rest n ↔ left ≠ [] ∧ m.span.start = offset + n := by
  induction h generalizing n with
  | @empty offset rest m hFinds hText =>
    have hStart : m.span.start = offset := by rw [hFinds.span_eq]
    have hLongest := hFinds.longest hs
    rw [hText] at hLongest
    constructor
    · rintro ⟨hBoundary, c, hByte, -⟩
      obtain rfl := hBoundary.eq_zero hLongest
      refine ⟨?_, hStart⟩
      rintro rfl
      cases hByte
    · rintro ⟨hLeft, hAt⟩
      obtain ⟨c, rest, rfl⟩ := List.exists_cons_of_ne_nil hLeft
      obtain rfl : n = 0 := by omega
      exact ⟨.start, c, rfl, (hFinds.text_eq_nil_iff hs).mp hText⟩
  | @next offset rest first left' ms m left hFinds hText hUpTo ih =>
    have hLongest := hFinds.longest hs
    rw [← hFinds.text_append_left] at hLongest ⊢
    rw [stuckAt_append_iff hLongest hText]
    constructor
    · rintro ⟨k, rfl, hStuck⟩
      obtain ⟨hLeft, hAt⟩ := ih.mp hStuck
      exact ⟨hLeft, by omega⟩
    · rintro ⟨hLeft, hAt⟩
      have hStart := hUpTo.le_start
      exact ⟨n - first.text.length, by omega, ih.mpr ⟨hLeft, by omega⟩⟩

end Automaton

namespace Engine

variable {a : Automaton} {entry : StateId} {row : Array StateId} {b : ScanBuffer}
  {rest : List UInt8}

/-- **Batch lexing succeeds, or it gets stuck** at one place and its error says where. -/
theorem lexAll_stuckAt (hEntry : a.state? entry = some (.dispatch row)) (backend : Backend)
    (hRest : b.Remains rest) :
    ((∃ found, ((inForm backend a entry).lexAll b).1 = .ok found) ∧
        ∀ n, ¬ a.StuckAt entry rest n) ∨
      ∃ n, ((inForm backend a entry).lexAll b).1 =
          .error (.malformed (.emptyMatch (b.window.position + n))) ∧
        ∀ k, a.StuckAt entry rest k ↔ k = n := by
  have hExists := Automaton.lt_size_of_state? hEntry
  obtain ⟨ms, m, left, hUpTo⟩ := Automaton.exists_upToEmpty hExists b.window.position rest
  obtain ⟨hOk, hError⟩ := lexAll_upToEmpty hExists backend hRest hUpTo
  have hStuck : ∀ k, a.StuckAt entry rest k ↔
      left ≠ [] ∧ m.span.start = b.window.position + k := fun k => hUpTo.stuckAt_iff hEntry
  by_cases hLeft : left = []
  · exact .inl ⟨⟨_, hOk hLeft (.inr ⟨row, hEntry⟩)⟩, fun n h => ((hStuck n).mp h).1 hLeft⟩
  · obtain ⟨n, hStart⟩ := Nat.exists_eq_add_of_le hUpTo.le_start
    refine .inr ⟨n, ?_, fun k => ?_⟩
    · rw [← hStart]
      exact hError fun h => hLeft h.1
    · rw [hStuck, and_iff_right hLeft, hStart]
      omega

theorem lexAll_ok_iff (hEntry : a.state? entry = some (.dispatch row)) (backend : Backend)
    (hRest : b.Remains rest) :
    (∃ found, ((inForm backend a entry).lexAll b).1 = .ok found) ↔
      ∀ n, ¬ a.StuckAt entry rest n := by
  rcases lexAll_stuckAt hEntry backend hRest with ⟨hOk, hFree⟩ | ⟨n, hError, hStuck⟩
  · exact iff_of_true hOk hFree
  · refine iff_of_false ?_ fun hFree => hFree n ((hStuck n).mpr rfl)
    rintro ⟨found, hOk⟩
    cases hOk.symm.trans hError

theorem lexAll_error_iff (hEntry : a.state? entry = some (.dispatch row)) (backend : Backend)
    (hRest : b.Remains rest) (error : LexError) :
    ((inForm backend a entry).lexAll b).1 = .error error ↔
      ∃ n, error = .malformed (.emptyMatch (b.window.position + n)) ∧
        a.StuckAt entry rest n ∧ ∀ k < n, ¬ a.StuckAt entry rest k := by
  rcases lexAll_stuckAt hEntry backend hRest with ⟨⟨found, hOk⟩, hFree⟩ | ⟨n, hError, hStuck⟩
  · rw [hOk]
    refine iff_of_false nofun ?_
    rintro ⟨n, -, hAt, -⟩
    exact hFree n hAt
  · rw [hError]
    constructor
    · rintro ⟨rfl⟩
      exact ⟨n, rfl, (hStuck n).mpr rfl, fun k hk h => Nat.ne_of_lt hk ((hStuck k).mp h)⟩
    · rintro ⟨k, rfl, hAt, -⟩
      rw [(hStuck k).mp hAt]

end Engine

/-- **When batch lexing fails.** Let the entry read on. Batch lexing lexes every stream, however it
is cut into chunks, exactly if the entry refuses no byte. It fails on a stream exactly if one of the
boundaries before the end stands before a byte that the entry refuses, and its error then says where
the first such boundary stands. -/
theorem lexAll_fails_iff {a : Automaton} {entry : StateId} {row : Array StateId}
    (hEntry : a.state? entry = some (.dispatch row)) (backend : Backend) :
    ∃ e, Engine.ofAutomaton backend a entry = .ok e ∧
      ((∀ first chunks, ∃ found, (e.lexAll (.ofSource first (.queue chunks))).1 = .ok found) ↔
        ∀ c, ¬ a.Refuses entry c) ∧
      ∀ {b : ScanBuffer} {rest : List UInt8}, b.Remains rest →
        ((∃ error, (e.lexAll b).1 = .error error) ↔ ∃ n, a.StuckAt entry rest n) ∧
        ∀ error, (e.lexAll b).1 = .error error ↔
          ∃ n, error = .malformed (.emptyMatch (b.window.position + n)) ∧
            a.StuckAt entry rest n ∧ ∀ k < n, ¬ a.StuckAt entry rest k := by
  refine ⟨_, Engine.ofAutomaton_of_lt (Automaton.lt_size_of_state? hEntry) backend,
    ⟨fun hAll c hRefuses => ?_, fun hNone first chunks => ?_⟩, fun {b rest} hRest => ⟨?_, ?_⟩⟩
  · -- the refused byte alone
    have hRest := ScanBuffer.remains_ofSource (Source.delivers_queue []) [c]
    exact (Engine.lexAll_ok_iff hEntry backend hRest).mp (hAll [c] []) 0 ⟨.start, c, rfl, hRefuses⟩
  · have hRest := ScanBuffer.remains_ofSource (Source.delivers_queue chunks) first
    refine (Engine.lexAll_ok_iff hEntry backend hRest).mpr ?_
    rintro n ⟨-, c, -, hRefuses⟩
    exact hNone c hRefuses
  · rcases Engine.lexAll_stuckAt hEntry backend hRest with ⟨⟨found, hOk⟩, hFree⟩ |
      ⟨n, hError, hStuck⟩
    · rw [hOk]
      exact iff_of_false nofun (not_exists.mpr hFree)
    · exact iff_of_true ⟨_, hError⟩ ⟨n, (hStuck n).mpr rfl⟩
  · exact Engine.lexAll_error_iff hEntry backend hRest

/-- A state that reads blanks refuses the letter behind them, which stands at `2`. -/
theorem lexAll_fails_iff_blanks :
    Automaton.words.state? 1 = some (.dispatch #[1, 4, 4]) ∧
      ∃ e, Engine.ofAutomaton .table Automaton.words 1 = .ok e ∧
        (e.lexAll (.ofSource [32] (.queue [.more [], .last [32, 97]]))).1 =
          .error (.malformed (.emptyMatch 2)) := by
  have hEntry : Automaton.words.state? 1 = some (.dispatch #[1, 4, 4]) := rfl
  have hBlank : Automaton.words.step? 1 (.byte 32) = some 1 := by decide +kernel
  have hLetter : Automaton.words.step? 1 (.byte 97) = some 4 := by decide +kernel
  have hReads : Automaton.words.ReadsOn 1 [32, 32] :=
    .cons hBlank hEntry (.cons hBlank hEntry Automaton.readsOn_nil)
  have hLongest : Automaton.words.Longest 1 ([32, 32] ++ [97]) [32, 32] :=
    Automaton.longest_of_action hReads (by decide +kernel) hLetter rfl
  have hStuck : Automaton.words.StuckAt 1 [32, 32, 97] 2 :=
    ⟨.next hLongest .start, 97, rfl, 4, 1, hLetter, rfl⟩
  obtain ⟨e, hEngine, -, hFails⟩ := lexAll_fails_iff hEntry .table
  have hRest := ScanBuffer.remains_ofSource
    (Source.delivers_queue [.more [], .last [32, 97]]) [32]
  refine ⟨hEntry, e, hEngine, ((hFails hRest).2 _).mpr ⟨2, rfl, hStuck, ?_⟩⟩
  rintro k hk ⟨-, c, hByte, hRefuses⟩
  obtain rfl : 32 = c := by
    obtain rfl | rfl : k = 0 ∨ k = 1 := by omega
    · exact Option.some.inj hByte
    · exact Option.some.inj hByte
  exact hRefuses.not_readsOn hReads

end StreamLexer
