import StreamLexer.Grammar.RandomText
import StreamLexer.Lexing
import StreamLexer.Proofs.Grammar.Joining
import StreamLexer.Proofs.Random.Outcomes

/-!
# Random texts have tokens

Random tokens are added until no byte is missing. Whichever are chosen, each has a byte, so that
this comes to an end, and each can be joined, so that none of the text they make is unmatched: the
bytes of words, integers, blanks and operators are never in the way of one another, a slash is
followed by a blank, and comments are closed before anything else is added.

## Main definitions

* `RandomText.IsPiece`: what the pieces of a random text are
* `RandomText.Fills`: the loop that adds tokens, however long it runs

## Main results

* `RandomText.yields_token`: a random token is a piece
* `RandomText.exists_fills`: the loop comes to an end
* `RandomText.tokens_of_fills`: a bound on the number of tokens that allows one for every missing
  byte is never reached
* `RandomText.valid_lexed`: a random text is long enough, and none of its tokens is unmatched
-/

namespace StreamLexer

/-- Matches that are tokens are read as tokens. -/
theorem Sample.exists_tokensOf (input : List UInt8) {ms : List Match}
    (h : ∀ m ∈ ms, ∃ k, k ≠ TokenKind.unmatched ∧ m.action = k.action) (found : List Token) :
    ∃ tokens, Sample.tokensOf input found ms = .ok tokens := by
  induction ms generalizing found with
  | nil => exact ⟨_, rfl⟩
  | cons m ms ih =>
    obtain ⟨⟨k, hMatched, hAction⟩, hRest⟩ := List.forall_mem_cons.mp h
    rw [Sample.tokensOf, hAction, TokenKind.ofAction?_action]
    split
    · next hNone => cases hNone
    · exact ⟨_, rfl⟩
    · next hUnmatched => exact absurd (Option.some.inj hUnmatched) hMatched
    · split
      · exact ih hRest found
      · exact ih hRest _

/-- A text whose matches are tokens has tokens. -/
theorem Sample.exists_tokens {input : List UInt8} {backend : Backend} {e : Engine}
    {found : List Match} (hEngine : Sample.engine backend = .ok e)
    (hFound : (e.lexAll (.ofBytes input)).1 = .ok found)
    (h : ∀ m ∈ found, ∃ k, k ≠ TokenKind.unmatched ∧ m.action = k.action) :
    ∃ tokens, Sample.tokens input backend = .ok tokens := by
  rw [Sample.tokens_eq_tokensOf hEngine hFound]
  exact Sample.exists_tokensOf input h []

namespace RandomText

open Sample Sample.Phase

/-- A piece has a byte, is ASCII, and can be joined. -/
structure IsPiece (x : List UInt8) : Prop where
  ne_nil : x ≠ []
  ascii : ∀ b ∈ x, b < 0x80
  glues : Glues x

/-- A byte of ASCII whose own phase any byte can end. -/
def IsPlain (b : UInt8) : Prop := b < 0x80 ∧ (first b).isSettled = true

instance (b : UInt8) : Decidable (IsPlain b) := inferInstanceAs (Decidable (_ ∧ _))

variable {σ : Type} {d : Dice σ} {x : List UInt8}

theorem isPiece_plain (hNe : x ≠ []) (h : ∀ b ∈ x, IsPlain b) : IsPiece x where
  ne_nil := hNe
  ascii := fun b hb => (h b hb).1
  glues := glues_plain fun b hb => (h b hb).2

/-- A text between two others is a piece, if all are ASCII and they can be joined. -/
theorem isPiece_between {front body back : List UInt8} (hBack : back ≠ [])
    (hEnds : ∀ b ∈ front ++ back, b < 0x80) (hBody : ∀ b ∈ body, b < 0x80)
    (hGlues : Glues (front ++ body ++ back)) : IsPiece (front ++ body ++ back) where
  ne_nil := List.append_ne_nil_of_right_ne_nil _ hBack
  ascii := by
    obtain ⟨hFront, hBack⟩ := List.forall_mem_append.mp hEnds
    exact List.forall_mem_append.mpr ⟨List.forall_mem_append.mpr ⟨hFront, hBody⟩, hBack⟩
  glues := hGlues

/-! ### What the pieces are made of -/

theorem letters_plain : letters ≠ [] ∧ ∀ b ∈ letters, IsPlain b := by decide +kernel

theorem digits_plain : digits ≠ [] ∧ ∀ b ∈ digits, IsPlain b := by decide +kernel

theorem blanks_plain : ascii " \t\r\n" ≠ [] ∧ ∀ b ∈ ascii " \t\r\n", IsPlain b := by
  decide +kernel

theorem space_plain : ∀ b ∈ ascii " ", IsPlain b :=
  fun b hb => blanks_plain.2 b (List.mem_of_mem_take (i := 1) hb)

theorem keywords_plain : keywords ≠ [] ∧ ∀ word ∈ keywords, word ≠ [] ∧ ∀ b ∈ word, IsPlain b := by
  decide +kernel

/-- Every operator but the slash is plain. -/
theorem operators_plain : operators ≠ [] ∧
    ∀ op ∈ operators, op = ascii "/" ∨ (op ≠ [] ∧ ∀ b ∈ op, IsPlain b) := by
  decide +kernel

theorem lineAlphabet_ascii : lineAlphabet ≠ [] ∧ ∀ b ∈ lineAlphabet, b < 0x80 ∧ b ≠ 0x0A := by
  decide +kernel

theorem blockAlphabet_ascii : blockAlphabet ≠ [] ∧ ∀ b ∈ blockAlphabet, b < 0x80 ∧ b ≠ 0x2F := by
  decide +kernel

/-! ### The choices -/

theorem yields_element {α : Type} [Inhabited α] (hFair : d.Fair) {set : List α} {p : α → Prop}
    (hSet : set ≠ [] ∧ ∀ x ∈ set, p x) : Yields (d.pick set) p :=
  (Dice.yields_pick hFair hSet.1).imp hSet.2

/-- Elements of a set, a number of them between two bounds. -/
theorem yields_run (hFair : d.Fair) {set : List UInt8} {p : UInt8 → Prop}
    (hSet : set ≠ [] ∧ ∀ b ∈ set, p b) {low high : Nat} (h : low ≤ high) :
    Yields (d.between low high >>= Dice.repeated (d.pick set)) fun x =>
      low ≤ x.length ∧ ∀ b ∈ x, p b := by
  refine (Dice.yields_between hFair h).bind fun n hn => ?_
  refine ((yields_element hFair hSet).repeated n).imp fun x hx => ⟨?_, hx.2⟩
  rw [hx.1]
  exact hn.1

theorem yields_plain (hFair : d.Fair) {set : List UInt8} (hSet : set ≠ [] ∧ ∀ b ∈ set, IsPlain b)
    {high : Nat} (h : 1 ≤ high) :
    Yields (d.between 1 high >>= Dice.repeated (d.pick set)) IsPiece := by
  refine (yields_run hFair hSet h).imp fun x hx => ?_
  exact isPiece_plain (List.length_pos_iff.mp hx.1) hx.2

theorem yields_int (hFair : d.Fair) : Yields (int d) IsPiece :=
  yields_plain hFair digits_plain (by omega)

theorem yields_blanks (hFair : d.Fair) : Yields (blanks d) IsPiece :=
  yields_plain hFair blanks_plain (by omega)

theorem yields_identTail (hFair : d.Fair) : Yields (identTail d) IsPlain := by
  refine Yields.trivial.bind fun isLetter _ => ?_
  cases isLetter with
  | true => exact yields_element hFair letters_plain
  | false => exact yields_element hFair digits_plain

theorem yields_ident (hFair : d.Fair) : Yields (ident d) IsPiece := by
  refine Yields.trivial.bind fun length _ => ?_
  refine (yields_element hFair letters_plain).bind fun first hFirst => ?_
  refine ((yields_identTail hFair).repeated _).bind fun tail hTail => yields_pure ?_
  exact isPiece_plain (List.cons_ne_nil _ _) (List.forall_mem_cons.mpr ⟨hFirst, hTail.2⟩)

/-- A piece of plain bytes stays one with a blank behind it. -/
theorem isPiece_spaced (hNe : x ≠ []) (h : ∀ b ∈ x, IsPlain b) : IsPiece (x ++ ascii " ") :=
  isPiece_plain (List.append_ne_nil_of_left_ne_nil hNe _)
    (List.forall_mem_append.mpr ⟨h, space_plain⟩)

theorem yields_keyword (hFair : d.Fair) : Yields (keyword d) IsPiece := by
  refine (yields_element hFair keywords_plain).bind fun word hWord => yields_pure ?_
  exact isPiece_spaced hWord.1 hWord.2

theorem yields_lineComment (hFair : d.Fair) : Yields (lineComment d) IsPiece := by
  refine Yields.trivial.bind fun n _ => ?_
  refine ((yields_element hFair lineAlphabet_ascii).repeated n).bind fun body hBody =>
    yields_pure ?_
  refine isPiece_between (by decide) (by decide +kernel) (fun b hb => (hBody.2 b hb).1) ?_
  exact glues_lineComment fun hMem => (hBody.2 _ hMem).2 rfl

theorem yields_blockPart (hFair : d.Fair) :
    Yields (blockPart d) fun x => ∀ b ∈ x, b < 0x80 ∧ b ≠ 0x2F := by
  have hExtra : ∀ b ∈ ascii "*" ++ ascii "\n", b < 0x80 ∧ b ≠ 0x2F := by decide +kernel
  obtain ⟨hStar, hBreak⟩ := List.forall_mem_append.mp hExtra
  refine Yields.trivial.bind fun n _ => ?_
  refine ((yields_element hFair blockAlphabet_ascii).repeated n).bind fun body hBody => ?_
  refine Yields.trivial.bind fun star _ => Yields.trivial.bind fun lineBreak _ => yields_pure ?_
  refine List.forall_mem_append.mpr ⟨List.forall_mem_append.mpr ⟨hBody.2, ?_⟩, ?_⟩
  · cases star with
    | true => exact hStar
    | false => exact fun _ hNil => absurd hNil List.not_mem_nil
  · cases lineBreak with
    | true => exact hBreak
    | false => exact fun _ hNil => absurd hNil List.not_mem_nil

theorem yields_blockComment (hFair : d.Fair) : Yields (blockComment d) IsPiece := by
  refine Yields.trivial.bind fun n _ => ?_
  refine ((yields_blockPart hFair).repeated n).bind fun parts hParts => yields_pure ?_
  have hBody : ∀ b ∈ parts.flatten, b < 0x80 ∧ b ≠ 0x2F := by
    intro b hb
    obtain ⟨part, hPart, hb⟩ := List.mem_flatten.mp hb
    exact hParts.2 part hPart b hb
  refine isPiece_between (by decide) (by decide +kernel) (fun b hb => (hBody b hb).1) ?_
  exact glues_blockComment fun hMem => (hBody _ hMem).2 rfl

theorem yields_operator (hFair : d.Fair) : Yields (operator d) IsPiece := by
  refine (yields_element hFair operators_plain).bind fun op hOp => ?_
  by_cases hSlash : op = ascii "/"
  · rw [if_pos hSlash, hSlash]
    exact yields_pure ⟨by decide, by decide +kernel, glues_slash⟩
  · obtain ⟨hNe, hPlain⟩ := hOp.resolve_left hSlash
    rw [if_neg hSlash]
    refine Yields.trivial.bind fun blank _ => ?_
    cases blank with
    | true => exact yields_pure (isPiece_spaced hNe hPlain)
    | false => exact yields_pure (isPiece_plain hNe hPlain)

/-- **A random token is a piece**, whichever choices are made. -/
theorem yields_token (hFair : d.Fair) : Yields (token d) IsPiece := by
  refine Yields.trivial.bind fun roll _ => ?_
  split_ifs
  · exact yields_ident hFair
  · exact yields_keyword hFair
  · exact yields_int hFair
  · exact yields_blanks hFair
  · exact yields_lineComment hFair
  · exact yields_blockComment hFair
  · exact yields_operator hFair

/-! ### The loop -/

/-- The loop that adds tokens while bytes are missing: the number of bytes that are, the state of
the dice, what is added, and the state afterwards. -/
inductive Fills (d : Dice σ) : Nat → σ → List (List UInt8) → σ → Prop
  | enough (s : σ) : Fills d 0 s [] s
  | token {missing : Nat} {s s' : σ} {pieces : List (List UInt8)} (hMissing : missing ≠ 0)
      (h : Fills d (missing - (token d s).1.length) (token d s).2 pieces s') :
      Fills d missing s ((token d s).1 :: pieces) s'

/-- **The loop comes to an end**, with as many bytes as were missing or more. -/
theorem exists_fills (hFair : d.Fair) (missing : Nat) (s : σ) :
    ∃ pieces s', Fills d missing s pieces s' ∧ (∀ x ∈ pieces, IsPiece x) ∧
      missing ≤ pieces.flatten.length := by
  -- induction on the bytes that are missing
  induction missing using Nat.strong_induction_on generalizing s with
  | _ missing ih =>
    rcases Nat.eq_zero_or_pos missing with rfl | hMissing
    · exact ⟨[], s, .enough s, by simp, Nat.zero_le _⟩
    · have hPiece : IsPiece (token d s).1 := yields_token hFair s
      have hLength : 0 < (token d s).1.length := List.length_pos_iff.mpr hPiece.ne_nil
      obtain ⟨pieces, s', hFills, hPieces, hEnough⟩ :=
        ih (missing - (token d s).1.length) (by omega) (token d s).2
      refine ⟨_, s', .token (by omega) hFills, List.forall_mem_cons.mpr ⟨hPiece, hPieces⟩, ?_⟩
      rw [List.flatten_cons, List.length_append]
      omega

/-- **A bound that allows a token for every missing byte is never reached**: what is added is what
the loop adds. -/
theorem tokens_of_fills {missing : Nat} {s s' : σ} {pieces : List (List UInt8)}
    (h : Fills d missing s pieces s') (hPieces : ∀ x ∈ pieces, x ≠ []) {fuel : Nat}
    (hFuel : missing ≤ fuel) (sofar : List (List UInt8)) :
    tokens d fuel missing sofar s = (sofar.reverse ++ pieces, s') := by
  induction h generalizing fuel sofar with
  | enough s =>
    rw [List.append_nil]
    cases fuel <;> rfl
  | @token missing s s' pieces hMissing h ih =>
    obtain ⟨hNe, hPieces⟩ := List.forall_mem_cons.mp hPieces
    have hLength : 0 < (token d s).1.length := List.length_pos_iff.mpr hNe
    cases fuel with
    | zero => omega
    | succ fuel =>
      rw [tokens, if_neg hMissing]
      have hFuel' : missing - (token d s).1.length ≤ fuel := by omega
      have hRest := ih hPieces hFuel' ((token d s).1 :: sofar)
      rw [List.reverse_cons, List.append_assoc] at hRest
      exact hRest

/-! ### Random texts -/

/-- A random text is what the loop adds, with an integer at the end. -/
theorem valid_of_fills {length : Nat} {s s' : σ} {pieces : List (List UInt8)}
    (h : Fills d length s pieces s') (hPieces : ∀ x ∈ pieces, IsPiece x) :
    valid d length s = (pieces.flatten ++ ascii " 0\n", s') := by
  have hTokens : tokens d length length [] s = (pieces, s') :=
    tokens_of_fills h (fun x hx => (hPieces x hx).ne_nil) le_rfl []
  simp only [valid, bind, StateT.bind, hTokens]
  rfl

/-- The integer at the end is a piece like the others. -/
theorem isPiece_end : IsPiece (ascii " 0\n") := isPiece_plain (by decide) (by decide +kernel)

/-- Pieces that are joined are one piece. -/
theorem isPiece_flatten {pieces : List (List UInt8)} (hNe : pieces ≠ [])
    (h : ∀ x ∈ pieces, IsPiece x) : IsPiece pieces.flatten where
  ne_nil := by
    obtain ⟨x, hx⟩ := List.exists_mem_of_ne_nil pieces hNe
    intro hNil
    exact (h x hx).ne_nil (List.flatten_eq_nil_iff.mp hNil x hx)
  ascii := by
    intro b hb
    obtain ⟨x, hx, hb⟩ := List.mem_flatten.mp hb
    exact (h x hx).ascii b hb
  glues := glues_flatten fun x hx => (h x hx).glues

/-- Read from its start, a piece leaves no token unmatched. -/
theorem IsPiece.clean (h : IsPiece x) : start.Clean x := h.glues.joins start rfl

/-- **Random texts have tokens.** Whichever choices the dice make, as long as their numbers stay
below their bounds, the loop that adds tokens comes to an end, and the text is what it added with an
integer at the end. The text is ASCII, and has as many bytes as were asked for or more. Both forms
lex it, however it is cut into chunks, to the same matches, none of which is unmatched; so it has
tokens. -/
theorem valid_lexed (hFair : d.Fair) (length : Nat) (s : σ) :
    ∃ pieces s', Fills d length s pieces s' ∧
      ∃ text, text = pieces.flatten ++ ascii " 0\n" ∧ valid d length s = (text, s') ∧
        (∀ b ∈ text, b < 0x80) ∧ length ≤ text.length ∧
        (∃ found : List Match,
          (∀ m ∈ found, m.action ≠ TokenKind.unmatched.action) ∧
          ∀ backend, ∃ e, Sample.engine backend = .ok e ∧
            (e.lexAll (.ofBytes text)).1 = .ok found ∧
            ∀ start chunks, start ++ Chunk.delivered chunks = text →
              (e.lexAll (.ofSource start (.queue chunks))).1 = .ok found) ∧
        ∀ backend, ∃ tokens, Sample.tokens text backend = .ok tokens := by
  obtain ⟨pieces, s', hFills, hPieces, hLength⟩ := exists_fills hFair length s
  have hText : IsPiece (pieces.flatten ++ ascii " 0\n") := by
    have hAll : ∀ x ∈ pieces ++ [ascii " 0\n"], IsPiece x :=
      List.forall_mem_append.mpr ⟨hPieces, List.forall_mem_singleton.mpr isPiece_end⟩
    simpa using isPiece_flatten (by simp) hAll
  obtain ⟨a, found, -, hFollows, hLexes, hEngines⟩ :=
    Sample.exists_lexes (pieces.flatten ++ ascii " 0\n")
  have hKinds := hFollows.exists_kinds hLexes hText.clean
  refine ⟨pieces, s', hFills, _, rfl, valid_of_fills hFills hPieces, hText.ascii, ?_,
    ⟨found, ?_, fun backend => ?_⟩, fun backend => ?_⟩
  · rw [List.length_append]
    omega
  · intro m hm hAction
    obtain ⟨k, hMatched, hKind⟩ := hKinds m hm
    exact hMatched (TokenKind.action_inj (hKind.symm.trans hAction))
  · obtain ⟨e, hEngine, hLex⟩ := hEngines backend
    refine ⟨e, hEngine, hLex _ (ScanBuffer.remains_ofBytes _) rfl, fun start chunks hCut => ?_⟩
    exact hLex _ (hCut ▸ ScanBuffer.remains_ofSource (Source.delivers_queue chunks) start) rfl
  · obtain ⟨e, hEngine, hLex⟩ := hEngines backend
    exact Sample.exists_tokens hEngine (hLex _ (ScanBuffer.remains_ofBytes _) rfl) hKinds

end RandomText

/-- A text of at least thirty bytes from the dice that draw words. -/
theorem RandomText.valid_lexed_words : WordStream.dice.Fair ∧
    ∃ text s', RandomText.valid WordStream.dice 30 (.ofSeed 7 []) = (text, s') ∧
      30 ≤ text.length ∧ ∀ backend, ∃ tokens, Sample.tokens text backend = .ok tokens := by
  obtain ⟨pieces, s', -, text, -, hValid, -, hLength, -, hTokens⟩ :=
    RandomText.valid_lexed WordStream.dice_fair 30 (.ofSeed 7 [])
  exact ⟨WordStream.dice_fair, text, s', hValid, hLength, hTokens⟩

end StreamLexer
