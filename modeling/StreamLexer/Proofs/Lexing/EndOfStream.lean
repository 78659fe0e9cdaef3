import StreamLexer.Proofs.Engine.LongestMatch
import StreamLexer.Proofs.Lexing.Tiling

/-!
# The first empty match

Batch lexing goes on up to the first empty match, and this match is accepted only where nothing is
left of the stream. The matches up to it are fixed by the bytes that remain. Whether nothing is left
shows in what the source has announced so far: a search that starts at a dispatch state looks for a
symbol, and does not end before a byte waits or the end is announced. A search that starts at a
terminal looks for none, so that only an end announced before it shows.

## Main definitions

* `Automaton.UpToEmpty`: the matches up to the first empty one
* `Automaton.SeesEnd`: whether a search for a match shows whether anything is left

## Main results

* `Automaton.exists_upToEmpty`, `Automaton.UpToEmpty.unique`: there is one first empty match
* `Engine.nextMatch_exhausted`: when the buffer is exhausted behind a match
* `Engine.lexAll_upToEmpty`: batch lexing ends at the first empty match, with one of two verdicts
-/

namespace StreamLexer

/-- A buffer is exhausted exactly if nothing remains and the end is announced. -/
theorem ScanBuffer.Remains.isExhausted_iff {b : ScanBuffer} {rest : List UInt8}
    (h : b.Remains rest) : b.isExhausted = true ↔ rest = [] ∧ b.window.atEnd = true := by
  constructor
  · intro hExhausted
    exact ⟨h.eq_nil_of_isExhausted hExhausted, (Bool.and_eq_true_iff.mp hExhausted).2⟩
  · rintro ⟨rfl, hEnd⟩
    rw [h.isExhausted_eq (by simp [Window.isDry, hEnd])]
    rfl

namespace Automaton

/-- The matches of `rest`, which stands at `offset`, up to the first empty one, which is `m` and
stands before `left`. -/
inductive UpToEmpty (a : Automaton) (s : StateId) :
    Nat → List UInt8 → List Match → Match → List UInt8 → Prop
  | empty {offset rest m} :
      a.Finds s offset rest m rest → m.text = [] → UpToEmpty a s offset rest [] m rest
  | next {offset rest first left' ms m left} :
      a.Finds s offset rest first left' → first.text ≠ [] →
      UpToEmpty a s (offset + first.text.length) left' ms m left →
      UpToEmpty a s offset rest (first :: ms) m left

/-- A search for a match from the state shows whether anything is left of the stream: it looks for
a symbol, unless the end is announced already. -/
def SeesEnd (a : Automaton) (s : StateId) (b : ScanBuffer) : Prop :=
  b.window.atEnd = true ∨ ∃ row, a.state? s = some (.dispatch row)

variable {a : Automaton} {s : StateId} {offset : Nat} {rest left : List UInt8} {m : Match}
  {ms : List Match}

theorem exists_finds (hs : s.toNat < a.size) (offset : Nat) (rest : List UInt8) :
    ∃ m left, a.Finds s offset rest m left := by
  obtain ⟨⟨action | q, lexeme, left⟩, hWalks⟩ := exists_walks hs true [] rest
  · exact ⟨⟨action, ⟨offset, offset + lexeme.reverse.length⟩, lexeme.reverse⟩, left, rfl,
      by rwa [List.reverse_reverse]⟩
  · obtain ⟨-, hEnd, -⟩ := hWalks.of_refill
    cases hEnd

/-- A match that is not empty leaves less. -/
theorem Finds.length_left_lt (h : a.Finds s offset rest m left) (hText : m.text ≠ []) :
    left.length < rest.length := by
  rw [← h.text_append_left, List.length_append]
  exact Nat.lt_add_of_pos_left (List.length_pos_iff.mpr hText)

/-- From a terminal, a match is empty. -/
theorem Finds.text_eq_nil_of_terminal {action : ActionId}
    (hs : a.state? s = some (.terminal action)) (h : a.Finds s offset rest m left) :
    m.text = [] := by
  have hWalk := h.walks.unique (.terminal hs)
  injection hWalk with _ hText _
  exact List.reverse_eq_nil_iff.mp hText

theorem seesEnd_iff_of_terminal {action : ActionId} (hs : a.state? s = some (.terminal action))
    {b : ScanBuffer} : a.SeesEnd s b ↔ b.window.atEnd = true := by
  refine ⟨?_, .inl⟩
  rintro (hEnd | ⟨row, hRow⟩)
  · exact hEnd
  · rw [hs] at hRow
    cases hRow

/-- A match that is not empty shows that the state reads on. -/
theorem Finds.seesEnd (hs : s.toNat < a.size) (h : a.Finds s offset rest m left)
    (hText : m.text ≠ []) (b : ScanBuffer) : a.SeesEnd s b := by
  obtain ⟨row | action, hState⟩ := exists_state_iff.mpr hs
  · exact .inr ⟨row, hState⟩
  · exact absurd (h.text_eq_nil_of_terminal hState) hText

/-- **There is a first empty match.** -/
theorem exists_upToEmpty (hs : s.toNat < a.size) (offset : Nat) (rest : List UInt8) :
    ∃ ms m left, a.UpToEmpty s offset rest ms m left := by
  induction hn : rest.length using Nat.strong_induction_on generalizing offset rest with
  | _ n ih =>
    subst hn
    obtain ⟨first, left, hFinds⟩ := exists_finds hs offset rest
    by_cases hText : first.text = []
    · obtain rfl := hFinds.eq_left hText
      exact ⟨[], first, left, .empty hFinds hText⟩
    · obtain ⟨ms, m, left', hUpTo⟩ :=
        ih left.length (hFinds.length_left_lt hText) (offset + first.text.length) left rfl
      exact ⟨first :: ms, m, left', .next hFinds hText hUpTo⟩

namespace UpToEmpty

/-- **There is one first empty match.** -/
theorem unique {ms' : List Match} {m' : Match} {left' : List UInt8}
    (h : a.UpToEmpty s offset rest ms m left) (h' : a.UpToEmpty s offset rest ms' m' left') :
    ms = ms' ∧ m = m' ∧ left = left' := by
  induction h generalizing ms' m' left' with
  | empty hFinds hText =>
    cases h' with
    | empty hFinds' => exact ⟨rfl, (hFinds.unique hFinds').1, rfl⟩
    | next hFinds' hText' _ =>
      rw [(hFinds.unique hFinds').1] at hText
      exact absurd hText hText'
  | next hFinds hText _ ih =>
    cases h' with
    | empty hFinds' hText' =>
      rw [(hFinds.unique hFinds').1] at hText
      exact absurd hText' hText
    | next hFinds' _ hRest' =>
      obtain ⟨rfl, rfl⟩ := hFinds.unique hFinds'
      obtain ⟨rfl, rfl, rfl⟩ := ih hRest'
      exact ⟨rfl, rfl, rfl⟩

/-- The first empty match stands where what is left begins. -/
theorem span_eq (h : a.UpToEmpty s offset rest ms m left) :
    m.text = [] ∧ m.span = ⟨m.span.start, m.span.start⟩ ∧
      m.span.start + left.length = offset + rest.length := by
  induction h with
  | empty hFinds hText =>
    rw [hFinds.span_eq, hText]
    exact ⟨rfl, rfl, rfl⟩
  | next hFinds _ _ ih =>
    obtain ⟨hText, hSpan, hStart⟩ := ih
    refine ⟨hText, hSpan, ?_⟩
    rw [hStart, ← hFinds.text_append_left, List.length_append, Nat.add_assoc]

end UpToEmpty

end Automaton

namespace Engine

variable {a : Automaton} {entry : StateId} {b : ScanBuffer} {rest left : List UInt8} {m : Match}
  {ms : List Match}

/-- **The buffer is exhausted behind a match** exactly if nothing is left and the search for the
match showed it. -/
theorem nextMatch_exhausted (hEntry : entry.toNat < a.size) (backend : Backend)
    (hRest : b.Remains rest) :
    ∃ m left b', a.Finds entry b.window.position rest m left ∧
      (inForm backend a entry).nextMatch b = (.ok m, b') ∧ b'.Remains left ∧
      b'.window.position = b.window.position + m.text.length ∧
      (b'.isExhausted = true ↔ left = [] ∧ a.SeesEnd entry b) := by
  obtain ⟨m, left, b', hFinds, hMatch, hLeft, hPosition, hExhausted, hReads⟩ :=
    nextMatch_finds hEntry backend hRest
  refine ⟨m, left, b', hFinds, hMatch, hLeft, hPosition, ?_⟩
  obtain ⟨row | action, hState⟩ := Automaton.exists_state_iff.mpr hEntry
  · rw [hReads row hState, List.isEmpty_iff]
    exact (and_iff_left (.inr ⟨row, hState⟩)).symm
  · -- the source is not asked
    rw [nextMatch_of_terminal hState] at hMatch
    obtain rfl : b.beginLexeme = b' := congrArg Prod.snd hMatch
    rw [hLeft.isExhausted_iff, Automaton.seesEnd_iff_of_terminal hState]
    rfl

/-- Batch lexing accepts the first empty match exactly if nothing is left and the end shows. -/
theorem collect_upToEmpty (hEntry : entry.toNat < a.size) (backend : Backend)
    (hRest : b.Remains rest) (h : a.UpToEmpty entry b.window.position rest ms m left) {fuel : Nat}
    (hFuel : rest.length < fuel) (found : List Match) :
    (left = [] → a.SeesEnd entry b →
        ((inForm backend a entry).collect fuel found b).1 = .ok (found.reverse ++ (ms ++ [m]))) ∧
      (¬ (left = [] ∧ a.SeesEnd entry b) →
        ((inForm backend a entry).collect fuel found b).1 =
          .error (.malformed (.emptyMatch m.span.start))) := by
  -- along the matches before the empty one
  generalize hOffset : b.window.position = offset at h
  induction h generalizing b fuel found with
  | @empty offset rest m hFinds hText =>
    obtain ⟨fuel, rfl⟩ : ∃ n, fuel = n + 1 := ⟨fuel - 1, by omega⟩
    obtain ⟨m', left, b', hFinds', hMatch, hLeft, hPosition, hExhausted⟩ :=
      nextMatch_exhausted hEntry backend hRest
    rw [hOffset] at hFinds' hPosition
    obtain ⟨rfl, rfl⟩ := hFinds.unique hFinds'
    have hSpan : m.span.isEmpty = true := by rw [hFinds.isEmpty_span, hText]; rfl
    rw [collect, hMatch]
    dsimp only
    rw [if_pos hSpan]
    refine ⟨fun hNil hSees => ?_, fun hNot => ?_⟩
    · rw [if_pos (hExhausted.mpr ⟨hNil, hSees⟩), List.reverse_cons]
      rfl
    · rw [if_neg fun hTrue => hNot (hExhausted.mp hTrue), hPosition, hText, hFinds.span_eq]
      rfl
  | @next offset rest first left' ms m left hFinds hText hUpTo ih =>
    obtain ⟨fuel, rfl⟩ : ∃ n, fuel = n + 1 := ⟨fuel - 1, by omega⟩
    obtain ⟨first', left'', b', hFinds', hMatch, hLeft, hPosition, -⟩ :=
      nextMatch_exhausted hEntry backend hRest
    rw [hOffset] at hFinds' hPosition
    obtain ⟨rfl, rfl⟩ := hFinds.unique hFinds'
    have hSees : ∀ b : ScanBuffer, a.SeesEnd entry b := hFinds.seesEnd hEntry hText
    have hLess := hFinds.length_left_lt hText
    rw [collect, hMatch]
    dsimp only
    rw [if_neg (by simpa [hFinds.isEmpty_span] using hText)]
    have hFuel' : left'.length < fuel := by omega
    obtain ⟨hOk, hError⟩ := ih hLeft hFuel' (first :: found) hPosition
    refine ⟨fun hNil _ => ?_, fun hNot => ?_⟩
    · rw [hOk hNil (hSees b'), List.reverse_cons, List.append_assoc]
      rfl
    · exact hError fun hEnd => hNot ⟨hEnd.1, hSees b⟩

/-- **Batch lexing ends at the first empty match**, whatever remains. If nothing is left at this
match, and the end shows, it is the last one; otherwise it is the error. -/
theorem lexAll_upToEmpty (hEntry : entry.toNat < a.size) (backend : Backend)
    (hRest : b.Remains rest) (h : a.UpToEmpty entry b.window.position rest ms m left) :
    (left = [] → a.SeesEnd entry b →
        ((inForm backend a entry).lexAll b).1 = .ok (ms ++ [m])) ∧
      (¬ (left = [] ∧ a.SeesEnd entry b) →
        ((inForm backend a entry).lexAll b).1 =
          .error (.malformed (.emptyMatch m.span.start))) :=
  collect_upToEmpty hEntry backend hRest h (Nat.lt_succ_of_le hRest.length_le_volume) []

end Engine

end StreamLexer
