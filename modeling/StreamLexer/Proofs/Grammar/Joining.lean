import StreamLexer.Proofs.Grammar.Lexical

/-!
# Texts that can be joined

Texts put one behind the other need not have the tokens that they have apart: a word goes on in the
next one, a slash and a star make a comment. What is kept track of here is less, namely that no
token is unmatched. Wherever a token stands, unless it is a slash, a comment or a byte that starts
no token, any byte can end it. A text that leads from such phases to such phases without a token
that is unmatched can be put behind, and in front of, any other that does.

## Main definitions

* `Sample.Phase.Clean`: a text read on from a phase leaves no token unmatched
* `Sample.Phase.isSettled`: the phases of tokens that any byte can end
* `Sample.Joins`, `Sample.Glues`: texts that can stand behind a settled phase

## Main results

* `Sample.Phase.Reads.clean`: a text that leaves no token unmatched does not do so further on
* `Sample.Follows.exists_kinds`: the matches of such a text are tokens
* `Sample.glues_plain`, `Sample.glues_slash`, `Sample.glues_lineComment`,
  `Sample.glues_blockComment`: the texts that tokens are made of can be joined
-/

namespace StreamLexer.Sample

open TokenKind

namespace Phase

/-- Read on from a phase, a text leaves no token unmatched. -/
def Clean : Phase → List UInt8 → Prop
  | p, [] => p.next .eof ≠ .after unmatched
  | p, b :: rest =>
    match p.next (.byte b) with
    | .within q => q.Clean rest
    | .after k => k ≠ unmatched ∧ (first b).Clean rest

/-- Whether any byte can end a token in the phase, so that what follows does not make a comment of
it or leave it unmatched. -/
def isSettled : Phase → Bool
  | slash | line | block _ | junk => false
  | operator k => k ≠ unmatched
  | _ => true

variable {p q : Phase} {x left rest : List UInt8} {b : UInt8} {k : TokenKind}

theorem clean_of_within (hNext : p.next (.byte b) = .within q) :
    p.Clean (b :: rest) ↔ q.Clean rest := by
  rw [Clean, hNext]

theorem clean_of_after (hNext : p.next (.byte b) = .after k) :
    p.Clean (b :: rest) ↔ k ≠ unmatched ∧ (first b).Clean rest := by
  rw [Clean, hNext]

/-! ### Tokens of a text that leaves none unmatched -/

/-- What is left behind the phase that a text has read. -/
theorem Reads.clean (h : p.Reads x) (hClean : start.Clean (x ++ left)) : p.Clean left := by
  induction x using List.reverseRecOn generalizing p left with
  | nil =>
    obtain rfl := reads_nil_iff.mp h
    exact hClean
  | append_singleton x b ih =>
    rw [List.append_assoc] at hClean
    rcases eq_or_ne x [] with rfl | hx
    · obtain rfl := reads_singleton_iff.mp h
      exact hClean
    · obtain ⟨q, hq, hNext⟩ := h.exists_of_concat hx
      exact (clean_of_within hNext).mp (ih hq hClean)

/-- A token that ends is not unmatched, and what is left starts with a token again. -/
theorem Clean.of_after (h : p.Clean left) (hNext : p.next (.front left) = .after k) :
    k ≠ unmatched ∧ start.Clean left := by
  cases left with
  | nil =>
    refine ⟨?_, by simp [Clean, next]⟩
    rintro rfl
    exact h hNext
  | cons b left => exact (clean_of_after hNext).mp h

end Phase

open Phase

/-- **The matches of a text that leaves no token unmatched are tokens.** -/
theorem Follows.exists_kinds {a : Automaton} (h : Follows a) {offset : Nat} {rest : List UInt8}
    {ms : List Match} (hLexes : a.Lexes entry offset rest ms) (hClean : start.Clean rest) :
    ∀ m ∈ ms, ∃ k, k ≠ unmatched ∧ m.action = k.action := by
  have hFirst : ∀ {offset rest m left}, a.Finds entry offset rest m left → start.Clean rest →
      (∃ k, k ≠ unmatched ∧ m.action = k.action) ∧ start.Clean left := by
    intro offset rest m left hFinds hClean
    obtain ⟨k, hAction, hKind⟩ := h.exists_kind hFinds
    obtain ⟨p, hp, hNext⟩ := exists_reads_of_matches ((hKind k).mpr rfl)
    rw [← hFinds.text_append_left] at hClean
    obtain ⟨hMatched, hLeft⟩ := (hp.clean hClean).of_after hNext
    exact ⟨⟨k, hMatched, hAction⟩, hLeft⟩
  induction hLexes with
  | last hFinds => exact List.forall_mem_singleton.mpr (hFirst hFinds hClean).1
  | next hFinds _ _ ih =>
    obtain ⟨hKind, hLeft⟩ := hFirst hFinds hClean
    exact List.forall_mem_cons.mpr ⟨hKind, ih hLeft⟩

/-! ### Joining -/

/-- Read on from any settled phase, a text leaves no token unmatched. -/
def Joins (rest : List UInt8) : Prop := ∀ p : Phase, p.isSettled → p.Clean rest

/-- Put in front of a text that joins, a text makes one that joins. -/
def Glues (x : List UInt8) : Prop := ∀ rest, Joins rest → Joins (x ++ rest)

variable {p : Phase} {x y rest body : List UInt8} {b : UInt8} {k : TokenKind}

/-- The end of the input leaves no token unmatched in a settled phase. -/
theorem joins_nil : Joins [] := by
  intro p hp
  cases p with
  | operator k => simpa [Clean, next, isSettled] using hp
  | slash | line | block _ | junk => cases hp
  | _ => simp [Clean, next, wordOr]

theorem Glues.joins (h : Glues x) : Joins x := by
  have hJoins := h [] joins_nil
  rwa [List.append_nil] at hJoins

theorem glues_nil : Glues [] := fun _ hRest => hRest

theorem Glues.append (hx : Glues x) (hy : Glues y) : Glues (x ++ y) := by
  intro rest hRest
  rw [List.append_assoc]
  exact hx _ (hy rest hRest)

theorem glues_flatten {pieces : List (List UInt8)} (h : ∀ x ∈ pieces, Glues x) :
    Glues pieces.flatten := by
  induction pieces with
  | nil => exact glues_nil
  | cons x pieces ih =>
    obtain ⟨hx, hPieces⟩ := List.forall_mem_cons.mp h
    exact hx.append (ih hPieces)

/-! ### A byte behind a settled phase -/

/-- Whether a byte has the first phase of a token of its own, goes on a token that stays settled, or
ends one that is not unmatched. A slash goes on no token. -/
def Advances (p : Phase) (b : UInt8) : Prop :=
  p.next (.byte b) = .within (first b) ∨
    (b ≠ 0x2F ∧ ∃ q, p.next (.byte b) = .within q ∧ q.isSettled = true) ∨
      ∃ k, p.next (.byte b) = .after k ∧ k ≠ unmatched

theorem advances_of_wordOr (hNext : p.next (.byte b) = wordOr k (.byte b)) (hk : k ≠ unmatched) :
    Advances p b := by
  by_cases hByte : isWordByte b = true
  · refine .inr (.inl ⟨?_, word, hNext.trans (wordOr_eq_within_iff.mpr ⟨hByte, rfl⟩), rfl⟩)
    rintro rfl
    cases hByte
  · have hStop : (Symbol.byte b).isIn isWordByte = false := Bool.eq_false_iff.mpr hByte
    exact .inr (.inr ⟨k, hNext.trans (wordOr_eq_after_iff.mpr ⟨hStop, rfl⟩), hk⟩)

/-- A run goes on with a byte of its class, and any other ends it. -/
theorem advances_of_run (cls : UInt8 → Bool) (hp : p.isSettled = true)
    (hNext : p.next (.byte b) = if cls b then .within p else .after k) (hk : k ≠ unmatched)
    (hSlash : cls 0x2F = false) : Advances p b := by
  by_cases hByte : cls b = true
  · refine .inr (.inl ⟨?_, p, by rw [hNext, if_pos hByte], hp⟩)
    rintro rfl
    rw [hSlash] at hByte
    cases hByte
  · exact .inr (.inr ⟨k, by rw [hNext, if_neg hByte], hk⟩)

/-- **Every settled phase advances.** -/
theorem advances_of_settled (hp : p.isSettled = true) (b : UInt8) : Advances p b := by
  cases p with
  | start => exact .inl rfl
  | i =>
    by_cases hF : b = 0x66
    · subst hF
      exact .inr (.inl ⟨by decide, iF, rfl, rfl⟩)
    · exact advances_of_wordOr (k := .ident) (if_neg (by simpa using hF)) (by decide)
  | iF => exact advances_of_wordOr (k := .if) rfl (by decide)
  | word => exact advances_of_wordOr (k := .ident) rfl (by decide)
  | int => exact advances_of_run Digits.isDigit hp (k := .int) rfl (by decide) rfl
  | blank => exact advances_of_run isBlank hp (k := .white) rfl (by decide) rfl
  | closed => exact .inr (.inr ⟨.blockComment, rfl, by decide⟩)
  | operator k =>
    cases hLong : k.extended? b with
    | none => exact .inr (.inr ⟨k, by rw [next, hLong], by simpa [isSettled] using hp⟩)
    | some long =>
      obtain ⟨hExtends, hText⟩ := Option.filter_eq_some_iff.mp hLong
      obtain ⟨c, d, hShort, hBytes⟩ := exists_bytes_of_long? hExtends
      obtain rfl : d = b := by simpa [hShort, hBytes] using hText
      refine .inr (.inl ⟨(byte_of_operator? hBytes (by simp)).2.2, operator long, ?_, ?_⟩)
      · rw [next, hLong]
      · have hNe : long ≠ unmatched := by
          rintro rfl
          cases hBytes
        simpa [isSettled] using hNe
  | slash | line | block _ | junk => cases hp

/-! ### The texts that tokens are made of -/

/-- A byte whose own phase is settled can be joined: a letter, a digit, a blank, or an operator. -/
theorem glues_plain (h : ∀ b ∈ x, (first b).isSettled = true) : Glues x := by
  induction x with
  | nil => exact glues_nil
  | cons b x ih =>
    obtain ⟨hb, hx⟩ := List.forall_mem_cons.mp h
    intro rest hRest p hp
    have hJoins : Joins (x ++ rest) := ih hx rest hRest
    rcases advances_of_settled hp b with hNext | ⟨-, q, hNext, hq⟩ | ⟨k, hNext, hk⟩
    · exact (clean_of_within hNext).mpr (hJoins _ hb)
    · exact (clean_of_within hNext).mpr (hJoins q hq)
    · exact (clean_of_after hNext).mpr ⟨hk, hJoins _ hb⟩

/-- A slash behind a settled phase is the first byte of a token. -/
theorem joins_slash (h : slash.Clean rest) : Joins (0x2F :: rest) := by
  intro p hp
  rcases advances_of_settled hp 0x2F with hNext | ⟨hNe, -⟩ | ⟨k, hNext, hk⟩
  · exact (clean_of_within hNext).mpr h
  · exact absurd rfl hNe
  · exact (clean_of_after hNext).mpr ⟨hk, h⟩

/-- A slash with a blank behind it starts no comment. -/
theorem glues_slash : Glues (ascii "/ ") := by
  intro rest hRest
  exact joins_slash ((clean_of_after (k := .slash) rfl).mpr ⟨by decide, hRest blank rfl⟩)

theorem clean_line (hBody : 0x0A ∉ body) (h : blank.Clean rest) :
    line.Clean (body ++ 0x0A :: rest) := by
  induction body with
  | nil => exact (clean_of_after (k := .lineComment) rfl).mpr ⟨by decide, h⟩
  | cons b body ih =>
    obtain ⟨hb, hBody⟩ := not_or.mp (mt List.mem_cons.mpr hBody)
    have hNext : line.next (.byte b) = .within line := if_neg (by simpa using Ne.symm hb)
    exact (clean_of_within hNext).mpr (ih hBody)

/-- A line comment ends at its line break, which is a blank. -/
theorem glues_lineComment (h : 0x0A ∉ body) : Glues (ascii "//" ++ body ++ ascii "\n") := by
  intro rest hRest
  rw [List.append_assoc, List.append_assoc]
  exact joins_slash ((clean_of_within rfl).mpr (clean_line h (hRest blank rfl)))

theorem clean_block (hBody : 0x2F ∉ body) (h : closed.Clean rest) (starred : Bool) :
    (block starred).Clean (body ++ 0x2A :: 0x2F :: rest) := by
  induction body generalizing starred with
  | nil =>
    have hStar : (block starred).next (.byte 0x2A) = .within (block true) := by cases starred <;> rfl
    exact (clean_of_within hStar).mpr ((clean_of_within rfl).mpr h)
  | cons b body ih =>
    obtain ⟨hb, hBody⟩ := not_or.mp (mt List.mem_cons.mpr hBody)
    have hNext : (block starred).next (.byte b) = .within (block (b = 0x2A)) :=
      if_neg fun hClose => hb hClose.2.symm
    exact (clean_of_within hNext).mpr (ih hBody _)

/-- A block comment without a slash inside is closed at its end. -/
theorem glues_blockComment (h : 0x2F ∉ body) : Glues (ascii "/*" ++ body ++ ascii "*/") := by
  intro rest hRest
  rw [List.append_assoc, List.append_assoc]
  exact joins_slash ((clean_of_within rfl).mpr (clean_block h (hRest closed rfl) false))

end StreamLexer.Sample
