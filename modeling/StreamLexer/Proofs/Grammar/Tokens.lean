import StreamLexer.Proofs.Grammar.Lexical

/-!
# The tokens of a text

A text has tokens exactly if it is made of tokens and trivia, each as long as it can be; the tokens
are then the ones that it is made of, at their places. There is one way at most to read a text like
that: where a token ends, the text read so far has a phase that the next symbol ends, while a longer
token would go on from there.

A token that stands in front of some symbol stands in front of a blank and of the end of the input
as well. So the tokens of a text, written down again with single blanks between them, are lexed to
the same tokens.

## Main definitions

* `Token.text`: the bytes of a token
* `Sample.Spaced`: a text is made of tokens and trivia

## Main results

* `TokenKind.Matches.text_unique`: a text starts with one token at most
* `Sample.tokens_eq_ok_iff`: the tokens of a text are those that it is made of
* `Sample.Spaced.pairwise`: they stand in order and do not overlap
* `TokenKind.Spells.separated`: a token can have a blank or the end of the input behind it
* `tokens_rejoined`: tokens with single blanks between them are lexed to the same tokens
-/

namespace StreamLexer

/-- The bytes of a token of a text. -/
def Token.text (input : List UInt8) (t : Token) : List UInt8 := (input.drop t.start).take t.length

/-- The kind and the bytes of a token of a text. -/
def Token.spelling (input : List UInt8) (t : Token) : TokenKind × List UInt8 :=
  (t.kind, t.text input)

open Sample

/-! ### Where a token ends -/

namespace Sample.Phase

/-- Where a text that has a phase is cut, the phase of its front goes on. -/
theorem Reads.exists_within {p : Phase} {x rest : List UInt8} {b : UInt8} (hx : x ≠ [])
    (h : p.Reads (x ++ b :: rest)) : ∃ q q' : Phase, q.Reads x ∧ q.next (.byte b) = .within q' := by
  induction rest using List.reverseRecOn generalizing p with
  | nil =>
    obtain ⟨q, hq, hNext⟩ := h.exists_of_concat hx
    exact ⟨q, p, hq, hNext⟩
  | append_singleton rest c ih =>
    have hConcat : x ++ b :: (rest ++ [c]) = (x ++ b :: rest) ++ [c] := by simp
    rw [hConcat] at h
    obtain ⟨q, hq, -⟩ := h.exists_of_concat (by simp)
    exact ih hq

end Sample.Phase

namespace TokenKind

variable {k k' : TokenKind} {x x' left left' : List UInt8} {y : Symbol}

/-- A token ends where it cannot go on. -/
theorem Matches.not_longer {b : UInt8} {rest : List UInt8} (h : k.Matches x (.byte b))
    (hx : x ≠ []) : ¬ k'.Matches (x ++ b :: rest) y := by
  intro hLonger
  obtain ⟨p, hp, hEnds⟩ := Phase.exists_reads_of_matches h
  obtain ⟨p', hp', -⟩ := Phase.exists_reads_of_matches hLonger
  obtain ⟨q, q', hq, hGoesOn⟩ := hp'.exists_within hx
  obtain rfl := hp.unique hq
  cases hEnds.symm.trans hGoesOn

/-- **A text starts with one token at most.** -/
theorem Matches.text_unique (h : k.Matches x (.front left)) (h' : k'.Matches x' (.front left'))
    (hx : x ≠ []) (hx' : x' ≠ []) (hText : x ++ left = x' ++ left') : x = x' ∧ left = left' := by
  rcases List.append_eq_append_iff.mp hText with ⟨z, rfl, rfl⟩ | ⟨z, rfl, rfl⟩
  · cases z with
    | nil => exact ⟨(List.append_nil x).symm, rfl⟩
    | cons b z => exact absurd h' (h.not_longer hx)
  · cases z with
    | nil => exact ⟨List.append_nil x', rfl⟩
    | cons b z => exact absurd h (h'.not_longer hx')

theorem Spells.ne_unmatched (h : k.Spells x y) : k ≠ unmatched := by
  rintro rfl
  exact h

/-- Only the end of the input has no bytes. -/
theorem Spells.ne_nil (h : k.Spells x y) (hEof : k ≠ eof) : x ≠ [] := by
  rintro rfl
  obtain ⟨p, hp, hNext⟩ :=
    Phase.exists_reads_of_matches ((matches_iff_spells h.ne_unmatched).mpr h)
  obtain rfl := Phase.reads_nil_iff.mp hp
  cases y with
  | eof =>
    cases hNext
    exact hEof rfl
  | byte b => cases hNext

/-! ### What can stand behind a token -/

/-- The text is one of a token of the kind, which is no trivia, with some symbol behind it. -/
def IsToken (k : TokenKind) (x : List UInt8) : Prop :=
  k.isTrivia = false ∧ k ≠ eof ∧ ∃ y, k.Spells x y

/-- **A token can have a blank behind it**, and the end of the input. -/
theorem Spells.separated (h : k.Spells x y) (hTrivia : k.isTrivia = false) (hEof : k ≠ eof) :
    k.Spells x (.byte 0x20) ∧ k.Spells x .eof := by
  cases hOp : k.operator? with
  | some op =>
    obtain ⟨rfl, -⟩ := (spells_iff_of_operator? hOp).mp h
    refine ⟨(spells_iff_of_operator? hOp).mpr ⟨rfl, ?_⟩,
      (spells_iff_of_operator? hOp).mpr ⟨rfl, fun long b _ _ => by simp⟩⟩
    intro long b _ hLong hBlank
    obtain rfl := Symbol.byte.inj hBlank
    obtain ⟨-, hApart, -⟩ := byte_of_operator? hLong (List.mem_append_right x List.mem_cons_self)
    cases hApart
  | none =>
    cases k with
    | ident => exact ⟨⟨h.1, h.2.1, rfl⟩, h.1, h.2.1, rfl⟩
    | «if» => exact ⟨⟨h.1, rfl⟩, h.1, rfl⟩
    | int => exact ⟨⟨h.1, rfl⟩, h.1, rfl⟩
    | slash => exact ⟨⟨h.1, by decide, by decide⟩, h.1, by simp, by simp⟩
    | eof => exact absurd rfl hEof
    | unmatched => exact absurd rfl h.ne_unmatched
    | white | lineComment | blockComment => cases hTrivia
    | _ => cases hOp

/-- No token starts with a blank. -/
theorem Spells.front_not_blank (h : k.Spells x y) (hTrivia : k.isTrivia = false) (hEof : k ≠ eof)
    (rest : List UInt8) : (Symbol.front (x ++ rest)).isIn isBlank = false := by
  obtain ⟨b, tail, rfl⟩ := List.exists_cons_of_ne_nil (h.ne_nil hEof)
  show isBlank b = false
  cases hOp : k.operator? with
  | some op =>
    obtain ⟨rfl, -⟩ := (spells_iff_of_operator? hOp).mp h
    exact (byte_of_operator? hOp List.mem_cons_self).2.1
  | none =>
    have hWord : isWordByte b = true → isBlank b = false := by
      intro hWord
      refine Bool.eq_false_iff.mpr fun hBlank => ?_
      rw [isWordByte_eq_false_of_isBlank hBlank] at hWord
      cases hWord
    cases k with
    | ident =>
      obtain ⟨⟨c, tail', hText, hLetter, -⟩, -⟩ := h
      obtain ⟨rfl, -⟩ := List.cons.inj hText
      exact hWord (by simp [isWordByte, hLetter])
    | int => exact hWord (by simp [isWordByte, h.1.2 b List.mem_cons_self])
    | «if» =>
      obtain ⟨rfl, -⟩ : b = 0x69 ∧ tail = [0x66] := List.cons.inj h.1
      rfl
    | slash =>
      obtain ⟨rfl, -⟩ : b = 0x2F ∧ tail = [] := List.cons.inj h.1
      rfl
    | eof => exact absurd rfl hEof
    | unmatched => exact absurd rfl h.ne_unmatched
    | white | lineComment | blockComment => cases hTrivia
    | _ => cases hOp

end TokenKind

/-! ### What a text is made of -/

namespace Sample

/-- Behind `before`, the rest of a text is made of blanks and comments, of the tokens given, each at
its place, and of nothing else. Whatever it is made of has the next symbol of the text behind it. -/
inductive Spaced : List UInt8 → List UInt8 → List Token → Prop
  | done {before} : Spaced before [] []
  | trivia {before x left ts} {k : TokenKind} :
      k.isTrivia = true → k.Spells x (.front left) → Spaced (before ++ x) left ts →
      Spaced before (x ++ left) ts
  | token {before x left ts} {k : TokenKind} :
      k.isTrivia = false → k ≠ .eof → k.Spells x (.front left) → Spaced (before ++ x) left ts →
      Spaced before (x ++ left) (⟨k, before.length, x.length⟩ :: ts)

variable {before rest : List UInt8} {ts : List Token}

theorem tokensOf_cons {input : List UInt8} {found : List Token} {m : Match} {ms : List Match}
    {k : TokenKind} (hAction : m.action = k.action) (hEof : k ≠ .eof) (hMatched : k ≠ .unmatched) :
    tokensOf input found (m :: ms) =
      if k.isTrivia then tokensOf input found ms
      else tokensOf input (⟨k, m.span.start, m.span.length⟩ :: found) ms := by
  rw [tokensOf, hAction, TokenKind.ofAction?_action]
  cases k <;> first | rfl | exact absurd rfl hEof | exact absurd rfl hMatched

theorem tokensOf_unmatched {input : List UInt8} {found : List Token} {m : Match} {ms : List Match}
    (hAction : m.action = TokenKind.unmatched.action) :
    tokensOf input found (m :: ms) ≠ .ok ts := by
  rw [tokensOf, hAction, TokenKind.ofAction?_action]
  simp

/-- The match at the end of a text is no token. -/
theorem Follows.tokensOf_last {a : Automaton} (h : Follows a) {offset : Nat} {m : Match}
    (hFinds : a.Finds entry offset [] m []) (input : List UInt8) (found : List Token) :
    tokensOf input found [m] = .ok found.reverse := by
  obtain ⟨k, hAction, hKind⟩ := h.exists_kind hFinds
  have hText : m.text = [] := (List.append_eq_nil_iff.mp hFinds.text_append_left).1
  obtain rfl : TokenKind.eof = k := (hKind .eof).mp ⟨hText, rfl⟩
  rw [tokensOf, hAction, TokenKind.ofAction?_action]

/-- **Matches that are read as tokens are what the text is made of.** -/
theorem Follows.spaced {a : Automaton} (h : Follows a) {offset : Nat} {ms : List Match}
    (hLexes : a.Lexes entry offset rest ms) (hOffset : before.length = offset)
    {input : List UInt8} {found : List Token} (hTokens : tokensOf input found ms = .ok ts) :
    ∃ ts', ts = found.reverse ++ ts' ∧ Spaced before rest ts' := by
  -- match by match
  induction hLexes generalizing before found with
  | last hFinds =>
    rw [h.tokensOf_last hFinds] at hTokens
    cases hTokens
    exact ⟨[], by simp, .done⟩
  | @next offset rest m left ms hFinds hText _ ih =>
    obtain ⟨k, hAction, hKind⟩ := h.exists_kind hFinds
    have hMatches := (hKind k).mpr rfl
    have hEof : k ≠ .eof := by
      rintro rfl
      exact hText hMatches.1
    have hMatched : k ≠ .unmatched := by
      rintro rfl
      exact tokensOf_unmatched hAction hTokens
    have hSpells := (TokenKind.matches_iff_spells hMatched).mp hMatches
    have hBehind : (before ++ m.text).length = offset + m.text.length := by
      rw [List.length_append, hOffset]
    rw [tokensOf_cons hAction hEof hMatched] at hTokens
    rw [← hFinds.text_append_left]
    cases hTrivia : k.isTrivia with
    | true =>
      rw [if_pos hTrivia] at hTokens
      obtain ⟨ts', hTs, hSpaced⟩ := ih hBehind hTokens
      exact ⟨ts', hTs, .trivia hTrivia hSpells hSpaced⟩
    | false =>
      rw [if_neg (by simp [hTrivia])] at hTokens
      obtain ⟨ts', hTs, hSpaced⟩ := ih hBehind hTokens
      have hToken : (⟨k, m.span.start, m.span.length⟩ : Token) =
          ⟨k, before.length, m.text.length⟩ := by
        rw [hFinds.span_eq, hOffset, Span.length, Nat.add_sub_cancel_left]
      rw [hToken, List.reverse_cons, List.append_assoc] at hTs
      exact ⟨_, hTs, .token hTrivia hEof hSpells hSpaced⟩

/-- Where a token stands, it is the first match. -/
theorem Follows.exists_of_spells {a : Automaton} (h : Follows a) {offset : Nat}
    {x left : List UInt8} {k : TokenKind} {ms : List Match}
    (hSpells : k.Spells x (.front left)) (hEof : k ≠ .eof)
    (hLexes : a.Lexes entry offset (x ++ left) ms) :
    ∃ m ms', ms = m :: ms' ∧ m.action = k.action ∧ m.span = ⟨offset, offset + x.length⟩ ∧
      a.Lexes entry (offset + x.length) left ms' := by
  have hx := hSpells.ne_nil hEof
  have hMatches := (TokenKind.matches_iff_spells hSpells.ne_unmatched).mpr hSpells
  generalize hRest : x ++ left = rest at hLexes
  cases hLexes with
  | last => exact absurd (List.append_eq_nil_iff.mp hRest).1 hx
  | @next _ _ m left' ms' hFinds hText hLater =>
    obtain ⟨k', hAction, hKind⟩ := h.exists_kind hFinds
    have hBytes : x ++ left = m.text ++ left' := hRest.trans hFinds.text_append_left.symm
    obtain ⟨rfl, rfl⟩ := hMatches.text_unique ((hKind k').mpr rfl) hx hText hBytes
    obtain rfl := (hKind k).mp hMatches
    exact ⟨m, ms', rfl, hAction, hFinds.span_eq, hLater⟩

/-- **What a text is made of is read as its tokens.** -/
theorem Follows.tokensOf_of_spaced {a : Automaton} (h : Follows a) (hSpaced : Spaced before rest ts)
    {ms : List Match} (hLexes : a.Lexes entry before.length rest ms) (input : List UInt8)
    (found : List Token) : tokensOf input found ms = .ok (found.reverse ++ ts) := by
  induction hSpaced generalizing ms found with
  | done =>
    cases hLexes with
    | last hFinds => rw [h.tokensOf_last hFinds, List.append_nil]
    | next hFinds hText => exact absurd (List.append_eq_nil_iff.mp hFinds.text_append_left).1 hText
  | @trivia before x left ts k hTrivia hSpells _ ih =>
    have hEof : k ≠ .eof := by
      rintro rfl
      cases hTrivia
    obtain ⟨m, ms, rfl, hAction, -, hLater⟩ := h.exists_of_spells hSpells hEof hLexes
    rw [← List.length_append] at hLater
    rw [tokensOf_cons hAction hEof hSpells.ne_unmatched, if_pos hTrivia]
    exact ih hLater found
  | @token before x left ts k hTrivia hEof hSpells _ ih =>
    obtain ⟨m, ms, rfl, hAction, hSpan, hLater⟩ := h.exists_of_spells hSpells hEof hLexes
    rw [← List.length_append] at hLater
    rw [tokensOf_cons hAction hEof hSpells.ne_unmatched, if_neg (by simp [hTrivia]), ih hLater,
      hSpan]
    simp [Span.length]

/-- **The tokens of a text are those that it is made of.** -/
theorem tokens_eq_ok_iff (input : List UInt8) (backend : Backend) :
    tokens input backend = .ok ts ↔ Spaced [] input ts := by
  obtain ⟨a, found, -, h, hLexes, hEngines⟩ := exists_lexes input
  obtain ⟨e, hEngine, hLex⟩ := hEngines backend
  rw [tokens_eq_tokensOf hEngine (hLex _ (ScanBuffer.remains_ofBytes input) rfl)]
  constructor
  · intro hTokens
    have hStart : ([] : List UInt8).length = 0 := rfl
    obtain ⟨ts', rfl, hSpaced⟩ := h.spaced hLexes hStart hTokens
    exact hSpaced
  · intro hSpaced
    exact h.tokensOf_of_spaced hSpaced hLexes input []

/-! ### The places of the tokens -/

/-- Every token has a byte, and stands in the rest of the text. -/
theorem Spaced.bounds (h : Spaced before rest ts) :
    ∀ t ∈ ts, before.length ≤ t.start ∧ 0 < t.length ∧
      t.start + t.length ≤ before.length + rest.length := by
  induction h with
  | done => simp
  | trivia _ _ _ ih =>
    intro t hMem
    have hLater := ih t hMem
    simp only [List.length_append] at hLater ⊢
    omega
  | @token before x left ts k _ hEof hSpells _ ih =>
    intro t hMem
    rcases List.mem_cons.mp hMem with rfl | hMem
    · have hPos := List.length_pos_iff.mpr (hSpells.ne_nil hEof)
      simp only [List.length_append]
      omega
    · have hLater := ih t hMem
      simp only [List.length_append] at hLater ⊢
      omega

/-- **The tokens stand in order and do not overlap.** -/
theorem Spaced.pairwise (h : Spaced before rest ts) :
    ts.Pairwise fun t t' => t.start + t.length ≤ t'.start := by
  induction h with
  | done => exact .nil
  | trivia _ _ _ ih => exact ih
  | @token before x left ts k _ _ _ hLater ih =>
    refine List.pairwise_cons.mpr ⟨fun t hMem => ?_, ih⟩
    rw [← List.length_append]
    exact (hLater.bounds t hMem).1

/-! ### The texts of the tokens -/

theorem text_of_place (before x left : List UInt8) (k : TokenKind) :
    Token.text (before ++ (x ++ left)) ⟨k, before.length, x.length⟩ = x := by
  rw [Token.text, List.drop_left, List.take_left]

/-- The text at the place of a token is one of its kind. -/
theorem Spaced.isToken (h : Spaced before rest ts) :
    ∀ t ∈ ts, t.kind.IsToken (t.text (before ++ rest)) := by
  induction h with
  | done => simp
  | trivia _ _ _ ih =>
    rw [← List.append_assoc]
    exact ih
  | @token before x left ts k hTrivia hEof hSpells _ ih =>
    refine List.forall_mem_cons.mpr ⟨?_, ?_⟩
    · rw [text_of_place]
      exact ⟨hTrivia, hEof, _, hSpells⟩
    · rw [← List.append_assoc]
      exact ih

/-- Texts with single blanks between them. -/
def joined (texts : List (List UInt8)) : List UInt8 := (ascii " ").intercalate texts

theorem exists_joined_eq (x : List UInt8) (texts : List (List UInt8)) :
    ∃ left, joined (x :: texts) = x ++ left := by
  cases texts with
  | nil => exact ⟨[], by rw [joined, List.intercalate_singleton, List.append_nil]⟩
  | cons next texts =>
    refine ⟨ascii " " ++ joined (next :: texts), ?_⟩
    rw [← List.append_assoc]
    exact List.intercalate_cons_cons

/-- **Tokens with single blanks between them are what their text is made of.** -/
theorem exists_spaced_joined {pieces : List (TokenKind × List UInt8)}
    (h : ∀ piece ∈ pieces, piece.1.IsToken piece.2) (before : List UInt8) :
    ∃ ts, Spaced before (joined (pieces.map Prod.snd)) ts ∧
      ts.map (Token.spelling (before ++ joined (pieces.map Prod.snd))) = pieces := by
  induction pieces generalizing before with
  | nil => exact ⟨[], .done, rfl⟩
  | cons piece pieces ih =>
    obtain ⟨k, x⟩ := piece
    obtain ⟨⟨hTrivia, hEof, y, hSpells⟩, hPieces⟩ := List.forall_mem_cons.mp h
    obtain ⟨hBlank, hEnd⟩ := hSpells.separated hTrivia hEof
    cases pieces with
    | nil =>
      have hJoined : joined [x] = x ++ [] := by
        rw [joined, List.intercalate_singleton, List.append_nil]
      refine ⟨[⟨k, before.length, x.length⟩], ?_, ?_⟩
      · rw [List.map_singleton, hJoined]
        exact .token hTrivia hEof hEnd .done
      · rw [List.map_singleton, List.map_singleton, hJoined, Token.spelling, text_of_place]
    | cons next pieces =>
      obtain ⟨⟨hTrivia', hEof', y', hSpells'⟩, -⟩ := List.forall_mem_cons.mp hPieces
      obtain ⟨ts, hSpaced, hSpellings⟩ := ih hPieces (before ++ x ++ ascii " ")
      generalize hRest : joined ((next :: pieces).map Prod.snd) = rest at hSpaced hSpellings
      have hJoined :
          joined ((⟨k, x⟩ :: next :: pieces).map Prod.snd) = x ++ (ascii " " ++ rest) := by
        rw [← hRest, ← List.append_assoc]
        exact List.intercalate_cons_cons
      have hWhite : TokenKind.white.Spells (ascii " ") (.front rest) := by
        obtain ⟨left, hNext⟩ := exists_joined_eq next.2 (pieces.map Prod.snd)
        have hFront := hSpells'.front_not_blank hTrivia' hEof' left
        rw [← hNext] at hFront
        rw [← hRest]
        exact ⟨isRun_singleton.mpr rfl, hFront⟩
      refine ⟨⟨k, before.length, x.length⟩ :: ts, ?_, ?_⟩
      · rw [hJoined]
        exact .token hTrivia hEof hBlank (.trivia rfl hWhite hSpaced)
      · have hText : before ++ (x ++ (ascii " " ++ rest)) = before ++ x ++ ascii " " ++ rest := by
          simp only [List.append_assoc]
        rw [hJoined, List.map_cons, Token.spelling, text_of_place, hText, hSpellings]

end Sample

/-- **Tokens can be joined again.** Whenever a text has tokens, it is made of them, each at its
place, and of blanks and comments before, between and behind them; they stand in order, do not
overlap, and none is empty. The texts of the tokens, joined by single blanks, have tokens in both
forms: as many, of the same kinds and with the same texts, in the same order. -/
theorem tokens_rejoined {input : List UInt8} {backend : Backend} {ts : List Token}
    (h : Sample.tokens input backend = .ok ts) :
    (Sample.Spaced [] input ts ∧ (ts.Pairwise fun t t' => t.start + t.length ≤ t'.start) ∧
      ∀ t ∈ ts, 0 < t.length ∧ t.start + t.length ≤ input.length) ∧
    ∀ backend', ∃ ts',
      Sample.tokens (Sample.joined (ts.map (Token.text input))) backend' = .ok ts' ∧
        ts'.map (Token.spelling (Sample.joined (ts.map (Token.text input)))) =
          ts.map (Token.spelling input) := by
  have hSpaced := (Sample.tokens_eq_ok_iff input backend).mp h
  refine ⟨⟨hSpaced, hSpaced.pairwise, fun t hMem => ?_⟩, fun backend' => ?_⟩
  · obtain ⟨-, hPos, hStop⟩ := hSpaced.bounds t hMem
    rw [List.length_nil, Nat.zero_add] at hStop
    exact ⟨hPos, hStop⟩
  · have hPieces : ∀ piece ∈ ts.map (Token.spelling input), piece.1.IsToken piece.2 := by
      intro piece hMem
      obtain ⟨t, hToken, rfl⟩ := List.mem_map.mp hMem
      exact hSpaced.isToken t hToken
    obtain ⟨ts', hJoined, hSpellings⟩ := Sample.exists_spaced_joined hPieces []
    have hTexts : (ts.map (Token.spelling input)).map Prod.snd = ts.map (Token.text input) := by
      rw [List.map_map]
      rfl
    rw [hTexts] at hJoined hSpellings
    exact ⟨ts', (Sample.tokens_eq_ok_iff _ backend').mpr hJoined, hSpellings⟩

/-- A keyword and a word that only a comment keeps apart, and a comparison behind them. -/
theorem tokens_rejoined_comparison :
    Sample.tokens (ascii "if/**/x<1") .table =
        .ok [⟨.if, 0, 2⟩, ⟨.ident, 6, 1⟩, ⟨.lt, 7, 1⟩, ⟨.int, 8, 1⟩] ∧
      ∃ ts, Sample.tokens (ascii "if x < 1") .direct = .ok ts ∧
        ts.map (Token.spelling (ascii "if x < 1")) =
          [(.if, ascii "if"), (.ident, ascii "x"), (.lt, ascii "<"), (.int, ascii "1")] := by
  have hTokens : Sample.tokens (ascii "if/**/x<1") .table =
      .ok [⟨.if, 0, 2⟩, ⟨.ident, 6, 1⟩, ⟨.lt, 7, 1⟩, ⟨.int, 8, 1⟩] := by
    have hIf : TokenKind.if.Spells (ascii "if") (.byte 0x2F) := ⟨rfl, rfl⟩
    have hComment : TokenKind.blockComment.Spells (ascii "/**/") (.byte 0x78) :=
      ⟨[], rfl, by decide⟩
    have hWord : TokenKind.ident.Spells (ascii "x") (.byte 0x3C) :=
      ⟨isWord_singleton.mpr rfl, by decide, rfl⟩
    have hLess : TokenKind.lt.Spells (ascii "<") (.byte 0x31) := by
      refine ⟨rfl, fun long b hLong hBytes hNext => ?_⟩
      obtain rfl := Option.some.inj hLong
      obtain rfl := Symbol.byte.inj hNext
      cases hBytes
    have hInt : TokenKind.int.Spells (ascii "1") .eof := ⟨isRun_singleton.mpr rfl, rfl⟩
    exact (Sample.tokens_eq_ok_iff _ _).mpr
      (.token rfl (by decide) hIf (.trivia rfl hComment (.token rfl (by decide) hWord
        (.token rfl (by decide) hLess (.token rfl (by decide) hInt .done)))))
  obtain ⟨-, hAgain⟩ := tokens_rejoined hTokens
  exact ⟨hTokens, hAgain .direct⟩

end StreamLexer
