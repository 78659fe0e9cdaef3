import Mathlib.Data.List.Infix
import StreamLexer.Proofs.Grammar.Spelling

/-!
# The phases of a token

What has been read of a token fixes its phase, and the phase and the next symbol say whether the
token goes on and which kind it has if it ends. Each phase stands for a language: the texts after
which a token is in the phase. The texts of length `n + 1` come from those of length `n` as the
phases go on, so that a text has one phase at most, and the kinds that a phase can end with are the
kinds that its texts match.

## Main definitions

* `Sample.Phase`, `Sample.Place`: the phases, and the kinds that a token can end with
* `Sample.Phase.next`: where one more symbol leads
* `Sample.Phase.Reads`: the texts after which a token is in a phase

## Main results

* `Sample.Phase.Reads.concat`: one more byte leads to a text of the next phase
* `Sample.Phase.Reads.exists_of_concat`: the last byte of a text led there
* `Sample.Phase.Reads.unique`: a text has one phase at most
* `Sample.Phase.Reads.matches`, `Sample.Phase.exists_reads_of_matches`: a text matches a kind if
  its phase ends with that kind, and only then
-/

namespace StreamLexer

/-- The operator that `b` behind an operator makes of it. -/
def TokenKind.extended? (k : TokenKind) (b : UInt8) : Option TokenKind :=
  k.long?.filter fun long => long.operator? = k.operator?.map (· ++ [b])

theorem TokenKind.extended?_eq_some_iff {k long : TokenKind} {op : List UInt8} {b : UInt8}
    (h : k.operator? = some op) :
    k.extended? b = some long ↔ k.long? = some long ∧ long.operator? = some (op ++ [b]) := by
  simp [extended?, h, Option.filter_eq_some_iff]

namespace Sample

open TokenKind

/-- The phases of a token. -/
inductive Phase where
  /-- Nothing is read yet. -/
  | start
  /-- The first letter of the keyword. -/
  | i
  /-- The keyword. -/
  | iF
  | word
  | int
  | blank
  | slash
  | line
  /-- A block comment that is open; whether its last byte may begin its end. -/
  | block (starred : Bool)
  | closed
  | operator (k : TokenKind)
  /-- A byte that no token starts with. -/
  | junk
deriving DecidableEq

/-- Within a token in some phase, or behind a token of some kind. -/
inductive Place where
  | within (p : Phase)
  | after (k : TokenKind)
deriving DecidableEq

namespace Phase

/-- The phase after a first byte. -/
def first (b : UInt8) : Phase :=
  if b = 0x69 then i
  else if isLetter b then word
  else if Digits.isDigit b then int
  else if isBlank b then blank
  else if b = 0x2F then slash
  else match ofByte? b with
    | some k => operator k
    | none => junk

/-- A word goes on with a letter or a digit, and else ends. -/
def wordOr (k : TokenKind) (y : Symbol) : Place :=
  if y.isIn isWordByte then .within word else .after k

/-- The phase after one more symbol, or the kind of the token that ends before it. -/
def next : Phase → Symbol → Place
  | start, .eof => .after .eof
  | start, .byte b => .within (first b)
  | i, y => if y = .byte 0x66 then .within iF else wordOr .ident y
  | iF, y => wordOr .if y
  | word, y => wordOr .ident y
  | int, y => if y.isIn Digits.isDigit then .within int else .after .int
  | blank, y => if y.isIn isBlank then .within blank else .after .white
  | slash, y =>
    if y = .byte 0x2F then .within line
    else if y = .byte 0x2A then .within (block false)
    else .after .slash
  | line, y => if y = .byte 0x0A ∨ y = .eof then .after .lineComment else .within line
  | block _, .eof => .after .unmatched
  | block starred, .byte b =>
    if starred ∧ b = 0x2F then .within closed else .within (block (b = 0x2A))
  | closed, _ => .after .blockComment
  | operator k, .eof => .after k
  | operator k, .byte b =>
    match k.extended? b with
    | some long => .within (operator long)
    | none => .after k
  | junk, _ => .after .unmatched

/-- The texts after which a token is in the phase. -/
def Reads : Phase → List UInt8 → Prop
  | start, x => x = []
  | i, x => x = ascii "i"
  | iF, x => x = ascii "if"
  | word, x => IsWord x ∧ x ≠ ascii "i" ∧ x ≠ ascii "if"
  | int, x => IsRun Digits.isDigit x
  | blank, x => IsRun isBlank x
  | slash, x => x = ascii "/"
  | line, x => ascii "//" <+: x ∧ 0x0A ∉ x
  | block starred, x =>
    ∃ u, x = ascii "/*" ++ u ∧ ¬ ascii "*/" <:+: u ∧ (starred = true ↔ ascii "*" <:+ u)
  | closed, x => ∃ u, x = ascii "/*" ++ u ++ ascii "*/" ∧ ¬ ascii "*/" <:+: u ++ ascii "*"
  | operator k, x => k.operator? = some x
  | junk, x => ∃ b, x = [b] ∧ ¬ Starts b

theorem wordOr_eq_within_iff {k : TokenKind} {b : UInt8} {p : Phase} :
    wordOr k (.byte b) = .within p ↔ isWordByte b = true ∧ word = p := by
  by_cases h : isWordByte b = true <;> simp [wordOr, h]

theorem wordOr_eq_after_iff {k k' : TokenKind} {y : Symbol} :
    wordOr k y = .after k' ↔ y.isIn isWordByte = false ∧ k = k' := by
  by_cases h : y.isIn isWordByte = true <;> simp [wordOr, h]

/-! ### The first byte -/

theorem first_of_isWordByte {b : UInt8} (h : isWordByte b = false) :
    first b = if isBlank b then blank else if b = 0x2F then slash else
      match ofByte? b with
      | some k => operator k
      | none => junk := by
  have hNe : b ≠ 0x69 := by
    rintro rfl
    cases h
  obtain ⟨hLetter, hDigit⟩ := Bool.or_eq_false_iff.mp h
  rw [first, if_neg hNe, if_neg (by simp [hLetter]), if_neg (by simp [hDigit])]

/-- **A token is in the phase of its first byte.** -/
theorem reads_singleton_iff {b : UInt8} {p : Phase} : p.Reads [b] ↔ first b = p := by
  constructor
  · intro h
    cases p with
    | start => cases h
    | i =>
      obtain rfl : b = 0x69 := List.singleton_inj.mp h
      rfl
    | iF => simp [Reads, ascii] at h
    | word =>
      obtain ⟨hWord, hI, -⟩ := h
      have hNe : b ≠ 0x69 := by
        rintro rfl
        exact hI rfl
      rw [first, if_neg hNe, if_pos (isWord_singleton.mp hWord)]
    | int =>
      have hDigit := isRun_singleton.mp h
      have hNe : b ≠ 0x69 := by
        rintro rfl
        cases hDigit
      rw [first, if_neg hNe, if_neg (by simp [isLetter_eq_false_of_isDigit hDigit]), if_pos hDigit]
    | blank =>
      have hBlank := isRun_singleton.mp h
      rw [first_of_isWordByte (isWordByte_eq_false_of_isBlank hBlank), if_pos hBlank]
    | slash =>
      obtain rfl : b = 0x2F := List.singleton_inj.mp h
      rfl
    | line => simp [Reads, ascii] at h
    | block starred => simp [Reads, ascii] at h
    | closed => simp [Reads, ascii] at h
    | operator k =>
      obtain ⟨hWord, hBlank, hSlash⟩ := byte_of_operator? h (List.mem_singleton_self b)
      rw [first_of_isWordByte hWord, if_neg (by simp [hBlank]), if_neg hSlash,
        ofByte?_eq_some_iff.mpr h]
    | junk =>
      obtain ⟨c, hByte, hStarts⟩ := h
      obtain rfl : b = c := List.singleton_inj.mp hByte
      simp only [starts_iff, not_or, Bool.not_eq_true, not_exists] at hStarts
      obtain ⟨hWord, hBlank, hSlash, hOp⟩ := hStarts
      rw [first_of_isWordByte hWord, if_neg (by simp [hBlank]), if_neg hSlash,
        Option.eq_none_iff_forall_ne_some.mpr hOp]
  · rintro rfl
    unfold first
    split_ifs with hI hLetter hDigit hBlank hSlash
    · rw [hI]
      rfl
    · refine ⟨isWord_singleton.mpr hLetter, fun h => hI (List.singleton_inj.mp h), ?_⟩
      simp [ascii]
    · exact isRun_singleton.mpr hDigit
    · exact isRun_singleton.mpr hBlank
    · rw [hSlash]
      rfl
    · split
      · next k hOp => exact ofByte?_eq_some_iff.mp hOp
      · next hNone =>
        refine ⟨b, rfl, ?_⟩
        simp [starts_iff, isWordByte, hLetter, hDigit, hBlank, hSlash, hNone]

variable {p q : Phase} {x : List UInt8} {b : UInt8}

theorem reads_nil_iff : p.Reads [] ↔ p = start := by
  constructor
  · intro h
    cases p with
    | start => rfl
    | word => exact absurd rfl h.1.ne_nil
    | int => exact absurd rfl h.1
    | blank => exact absurd rfl h.1
    | operator k =>
      have hPos : ∀ k ∈ all, k.operator? ≠ some [] := by decide +kernel
      exact absurd h (hPos k k.mem_all)
    | _ => simp [Reads, ascii] at h
  · rintro rfl
    rfl

/-! ### Words -/

theorem reads_word_concat (hWord : IsWord x) (hByte : isWordByte b = true)
    (hIf : x ++ [b] ≠ ascii "if") : word.Reads (x ++ [b]) := by
  refine ⟨(isWord_concat hWord.ne_nil).mpr ⟨hWord, hByte⟩, fun hI => ?_, hIf⟩
  obtain ⟨rfl, -⟩ := List.append_singleton_inj.mp (show x ++ [b] = [] ++ [0x69] from hI)
  exact hWord.ne_nil rfl

/-- What a word was before its last byte: the keyword or the start of it, or another word. -/
theorem exists_of_word_concat (hx : x ≠ []) (h : word.Reads (x ++ [b])) :
    ∃ q : Phase, q.Reads x ∧ q.next (.byte b) = .within word := by
  obtain ⟨hWord, -, hIf⟩ := h
  obtain ⟨hWord, hByte⟩ := (isWord_concat hx).mp hWord
  have hNext : ∀ k, wordOr k (.byte b) = .within word := fun k =>
    wordOr_eq_within_iff.mpr ⟨hByte, rfl⟩
  by_cases hI : x = ascii "i"
  · refine ⟨i, hI, ?_⟩
    rw [next, if_neg, hNext]
    intro hF
    cases hF
    exact hIf (by rw [hI]; rfl)
  · by_cases hKeyword : x = ascii "if"
    · exact ⟨iF, hKeyword, hNext .if⟩
    · exact ⟨word, ⟨hWord, hI, hKeyword⟩, hNext .ident⟩

/-! ### Block comments -/

theorem star_suffix_concat_iff {u : List UInt8} : ascii "*" <:+ u ++ [b] ↔ b = 0x2A := by
  rw [List.suffix_concat_iff]
  constructor
  · rintro (hNil | ⟨t, hStar, -⟩)
    · cases hNil
    · exact (List.append_singleton_inj.mp (show [] ++ [0x2A] = t ++ [b] from hStar)).2.symm
  · rintro rfl
    exact .inr ⟨[], rfl, List.nil_suffix⟩

theorem close_infix_concat_iff {u : List UInt8} :
    ascii "*/" <:+: u ++ [b] ↔ (ascii "*" <:+ u ∧ b = 0x2F) ∨ ascii "*/" <:+: u := by
  rw [List.infix_concat_iff, List.suffix_concat_iff]
  refine or_congr_left ⟨?_, ?_⟩
  · rintro (hNil | ⟨t, hClose, hStar⟩)
    · cases hNil
    · obtain ⟨rfl, rfl⟩ := List.append_singleton_inj.mp
        (show ascii "*" ++ [0x2F] = t ++ [b] from hClose)
      exact ⟨hStar, rfl⟩
  · rintro ⟨hStar, rfl⟩
    exact .inr ⟨ascii "*", rfl, hStar⟩

theorem reads_block_concat {starred : Bool} (h : (block starred).Reads x)
    (hOpen : ¬ (starred = true ∧ b = 0x2F)) : (block (b = 0x2A)).Reads (x ++ [b]) := by
  obtain ⟨u, rfl, hBefore, hStarred⟩ := h
  refine ⟨u ++ [b], List.append_assoc _ _ _, ?_, ?_⟩
  · rw [close_infix_concat_iff, ← hStarred]
    exact not_or.mpr ⟨hOpen, hBefore⟩
  · rw [star_suffix_concat_iff, decide_eq_true_eq]

theorem reads_closed_concat (h : (block true).Reads x) : closed.Reads (x ++ [0x2F]) := by
  obtain ⟨u, rfl, hOpen, hStarred⟩ := h
  obtain ⟨t, rfl⟩ := hStarred.mp rfl
  exact ⟨t, by simp [ascii], hOpen⟩

/-- What an open comment was before its last byte: the slash, or an open comment. -/
theorem exists_of_block_concat {starred : Bool} (h : (block starred).Reads (x ++ [b])) :
    ∃ q : Phase, q.Reads x ∧ q.next (.byte b) = .within (block starred) := by
  obtain ⟨u, hText, hOpen, hStarred⟩ := h
  rcases List.eq_nil_or_concat u with rfl | ⟨u, c, rfl⟩
  · obtain ⟨rfl, rfl⟩ := List.append_singleton_inj.mp
      (show x ++ [b] = ascii "/" ++ [0x2A] from hText)
    obtain rfl : starred = false := by
      rw [← Bool.not_eq_true, hStarred]
      decide
    exact ⟨slash, rfl, rfl⟩
  · rw [List.concat_eq_append] at hText hOpen hStarred
    rw [← List.append_assoc] at hText
    obtain ⟨rfl, rfl⟩ := List.append_singleton_inj.mp hText
    rw [close_infix_concat_iff, not_or] at hOpen
    rw [star_suffix_concat_iff] at hStarred
    obtain rfl : starred = decide (b = 0x2A) := by
      rw [Bool.eq_iff_iff, hStarred, decide_eq_true_eq]
    refine ⟨block (decide (ascii "*" <:+ u)), ⟨u, rfl, hOpen.2, decide_eq_true_iff⟩, ?_⟩
    rw [next, if_neg (by simpa using hOpen.1)]

/-! ### One more byte -/

/-- **One more byte** leads to a text of the next phase. -/
theorem Reads.concat (h : q.Reads x) (hNext : q.next (.byte b) = .within p) :
    p.Reads (x ++ [b]) := by
  cases q with
  | start =>
    obtain rfl : x = [] := h
    obtain rfl : first b = p := Place.within.inj hNext
    exact reads_singleton_iff.mpr rfl
  | i =>
    obtain rfl : x = ascii "i" := h
    rw [next] at hNext
    split_ifs at hNext with hF
    · cases hF
      cases hNext
      rfl
    · obtain ⟨hByte, rfl⟩ := wordOr_eq_within_iff.mp hNext
      refine reads_word_concat (isWord_singleton.mpr (by decide)) hByte fun hIf => ?_
      obtain ⟨-, rfl⟩ := List.append_singleton_inj.mp
        (show ascii "i" ++ [b] = ascii "i" ++ [0x66] from hIf)
      exact hF rfl
  | iF =>
    obtain rfl : x = ascii "if" := h
    obtain ⟨hByte, rfl⟩ := wordOr_eq_within_iff.mp hNext
    exact reads_word_concat ⟨0x69, [0x66], rfl, rfl, List.forall_mem_singleton.mpr rfl⟩ hByte
      (by simp)
  | word =>
    obtain ⟨hWord, hI, -⟩ := h
    obtain ⟨hByte, rfl⟩ := wordOr_eq_within_iff.mp hNext
    refine reads_word_concat hWord hByte fun hIf => ?_
    obtain ⟨rfl, -⟩ := List.append_singleton_inj.mp (show x ++ [b] = ascii "i" ++ [0x66] from hIf)
    exact hI rfl
  | int =>
    rw [next] at hNext
    split_ifs at hNext with hDigit
    cases hNext
    exact (isRun_concat h.1).mpr ⟨h, hDigit⟩
  | blank =>
    rw [next] at hNext
    split_ifs at hNext with hBlank
    cases hNext
    exact (isRun_concat h.1).mpr ⟨h, hBlank⟩
  | slash =>
    obtain rfl : x = ascii "/" := h
    rw [next] at hNext
    split_ifs at hNext with hSlash hStar
    · cases hSlash
      cases hNext
      exact ⟨List.prefix_rfl, by decide⟩
    · cases hStar
      cases hNext
      exact ⟨[], rfl, by decide, by decide⟩
  | line =>
    rw [next] at hNext
    by_cases hBreak : b = 0x0A
    · rw [if_pos (.inl (congrArg Symbol.byte hBreak))] at hNext
      cases hNext
    · rw [if_neg (by simpa using hBreak)] at hNext
      cases hNext
      refine ⟨h.1.trans (List.prefix_append x [b]), ?_⟩
      simpa [h.2, eq_comm] using hBreak
  | block starred =>
    rw [next] at hNext
    split_ifs at hNext with hClose
    · obtain ⟨rfl, rfl⟩ := hClose
      cases hNext
      exact reads_closed_concat h
    · cases hNext
      exact reads_block_concat h hClose
  | closed => cases hNext
  | operator k =>
    rw [next] at hNext
    split at hNext
    · next long hLong =>
      cases hNext
      exact ((extended?_eq_some_iff h).mp hLong).2
    · cases hNext
  | junk => cases hNext

/-- **The last byte** of a text of some phase leads there from the phase before it. -/
theorem Reads.exists_of_concat (hx : x ≠ []) (h : p.Reads (x ++ [b])) :
    ∃ q : Phase, q.Reads x ∧ q.next (.byte b) = .within p := by
  cases p with
  | start => exact absurd h (by simp [Reads])
  | i =>
    exact absurd (List.append_singleton_inj.mp (show x ++ [b] = [] ++ [0x69] from h)).1 hx
  | iF =>
    obtain ⟨rfl, rfl⟩ := List.append_singleton_inj.mp (show x ++ [b] = ascii "i" ++ [0x66] from h)
    exact ⟨i, rfl, rfl⟩
  | word => exact exists_of_word_concat hx h
  | int =>
    obtain ⟨hRun, hDigit⟩ := (isRun_concat hx).mp h
    exact ⟨int, hRun, if_pos hDigit⟩
  | blank =>
    obtain ⟨hRun, hBlank⟩ := (isRun_concat hx).mp h
    exact ⟨blank, hRun, if_pos hBlank⟩
  | slash =>
    exact absurd (List.append_singleton_inj.mp (show x ++ [b] = [] ++ [0x2F] from h)).1 hx
  | line =>
    obtain ⟨hOpen, hBreak⟩ := h
    obtain ⟨hBefore, hLast⟩ : 0x0A ∉ x ∧ b ≠ 0x0A := by
      simpa [eq_comm] using hBreak
    rcases List.prefix_concat_iff.mp hOpen with hAll | hOpen
    · obtain ⟨rfl, rfl⟩ := List.append_singleton_inj.mp
        (show ascii "/" ++ [0x2F] = x ++ [b] from hAll)
      exact ⟨slash, rfl, rfl⟩
    · exact ⟨line, ⟨hOpen, hBefore⟩, if_neg (by simpa using hLast)⟩
  | block starred => exact exists_of_block_concat h
  | closed =>
    obtain ⟨u, hText, hOpen⟩ := h
    obtain ⟨rfl, rfl⟩ := List.append_singleton_inj.mp
      (show x ++ [b] = (ascii "/*" ++ (u ++ ascii "*")) ++ [0x2F] by simpa [ascii] using hText)
    exact ⟨block true, ⟨u ++ ascii "*", rfl, hOpen, by simp⟩, rfl⟩
  | operator k =>
    rcases exists_operator?_short h with rfl | ⟨short, hShort, hLong⟩
    · exact absurd rfl hx
    · refine ⟨operator short, hShort, ?_⟩
      rw [next, (extended?_eq_some_iff hShort).mpr ⟨hLong, h⟩]
  | junk =>
    obtain ⟨c, hText, -⟩ := h
    exact absurd (List.append_singleton_inj.mp (show x ++ [b] = [] ++ [c] from hText)).1 hx

/-- **A text has one phase at most.** -/
theorem Reads.unique (h : p.Reads x) (h' : q.Reads x) : p = q := by
  induction x using List.reverseRecOn generalizing p q with
  | nil => rw [reads_nil_iff.mp h, reads_nil_iff.mp h']
  | append_singleton x b ih =>
    by_cases hx : x = []
    · subst hx
      exact (reads_singleton_iff.mp h).symm.trans (reads_singleton_iff.mp h')
    · obtain ⟨r, hr, hNext⟩ := h.exists_of_concat hx
      obtain ⟨r', hr', hNext'⟩ := h'.exists_of_concat hx
      obtain rfl := ih hr hr'
      exact Place.within.inj (hNext.symm.trans hNext')

/-! ### The end of a token -/

/-- An operator ends if the symbol behind it does not make it longer. -/
theorem next_operator_eq_after_iff {k k' : TokenKind} {y : Symbol} (h : k.operator? = some x) :
    (operator k).next y = .after k' ↔ k = k' ∧
      ∀ long b, k.long? = some long → long.operator? = some (x ++ [b]) → y ≠ .byte b := by
  cases y with
  | eof => simp [next]
  | byte c =>
    cases hLong : k.extended? c with
    | some long =>
      have hText := (extended?_eq_some_iff h).mp hLong
      simp only [next, hLong, reduceCtorEq, false_iff, not_and, not_forall]
      exact fun _ => ⟨long, c, hText.1, hText.2, not_not_intro rfl⟩
    | none =>
      simp only [next, hLong, Place.after.injEq]
      refine (and_iff_left ?_).symm
      rintro long b hExtends hText hByte
      cases hByte
      rw [(extended?_eq_some_iff h).mpr ⟨hExtends, hText⟩] at hLong
      cases hLong

/-- A token that ends has the kind that its phase says. -/
theorem Reads.matches {k : TokenKind} {y : Symbol} (h : p.Reads x) (hNext : p.next y = .after k) :
    k.Matches x y := by
  cases p with
  | start =>
    cases y with
    | eof =>
      cases hNext
      exact ⟨h, rfl⟩
    | byte b => cases hNext
  | i =>
    obtain rfl : x = ascii "i" := h
    rw [next] at hNext
    split_ifs at hNext
    obtain ⟨hStop, rfl⟩ := wordOr_eq_after_iff.mp hNext
    exact ⟨isWord_singleton.mpr (by decide), by decide, hStop⟩
  | iF =>
    obtain ⟨hStop, rfl⟩ := wordOr_eq_after_iff.mp hNext
    exact ⟨h, hStop⟩
  | word =>
    obtain ⟨hStop, rfl⟩ := wordOr_eq_after_iff.mp hNext
    exact ⟨h.1, h.2.2, hStop⟩
  | int =>
    rw [next] at hNext
    split_ifs at hNext with hDigit
    cases hNext
    exact ⟨h, Bool.eq_false_iff.mpr hDigit⟩
  | blank =>
    rw [next] at hNext
    split_ifs at hNext with hBlank
    cases hNext
    exact ⟨h, Bool.eq_false_iff.mpr hBlank⟩
  | slash =>
    rw [next] at hNext
    split_ifs at hNext with hSlash hStar
    cases hNext
    exact ⟨h, hSlash, hStar⟩
  | line =>
    rw [next] at hNext
    split at hNext
    · next hEnd =>
      cases hNext
      exact ⟨h.1, h.2, hEnd⟩
    · cases hNext
  | block starred =>
    obtain ⟨u, rfl, hOpen, -⟩ := h
    cases y with
    | eof =>
      cases hNext
      exact .inr ⟨List.prefix_append _ u, hOpen, rfl⟩
    | byte b =>
      rw [next] at hNext
      split_ifs at hNext
  | closed =>
    cases hNext
    exact h
  | operator k' =>
    have hText : k'.operator? = some x := h
    obtain ⟨rfl, hStop⟩ := (next_operator_eq_after_iff hText).mp hNext
    exact (matches_iff_of_operator? hText).mpr ⟨rfl, hStop⟩
  | junk =>
    cases hNext
    exact .inl h

/-- A kind that matches is the one that some phase of the text ends in. -/
theorem exists_reads_of_matches {k : TokenKind} {y : Symbol} (h : k.Matches x y) :
    ∃ p : Phase, p.Reads x ∧ p.next y = .after k := by
  cases hOp : k.operator? with
  | some op =>
    obtain ⟨rfl, hStop⟩ := (matches_iff_of_operator? hOp).mp h
    exact ⟨operator k, hOp, (next_operator_eq_after_iff hOp).mpr ⟨rfl, hStop⟩⟩
  | none =>
    cases k with
    | eof =>
      obtain ⟨rfl, rfl⟩ := h
      exact ⟨start, rfl, rfl⟩
    | unmatched =>
      rcases h with hJunk | ⟨⟨u, rfl⟩, hOpen, rfl⟩
      · exact ⟨junk, hJunk, rfl⟩
      · exact ⟨block (decide (ascii "*" <:+ u)), ⟨u, rfl, hOpen, decide_eq_true_iff⟩, rfl⟩
    | ident =>
      obtain ⟨hWord, hIf, hStop⟩ := h
      have hEnd : wordOr .ident y = .after .ident := wordOr_eq_after_iff.mpr ⟨hStop, rfl⟩
      by_cases hI : x = ascii "i"
      · refine ⟨i, hI, ?_⟩
        rw [next, if_neg, hEnd]
        rintro rfl
        cases hStop
      · exact ⟨word, ⟨hWord, hI, hIf⟩, hEnd⟩
    | «if» => exact ⟨iF, h.1, wordOr_eq_after_iff.mpr ⟨h.2, rfl⟩⟩
    | int => exact ⟨int, h.1, if_neg (Bool.eq_false_iff.mp h.2)⟩
    | white => exact ⟨blank, h.1, if_neg (Bool.eq_false_iff.mp h.2)⟩
    | lineComment => exact ⟨line, ⟨h.1, h.2.1⟩, if_pos h.2.2⟩
    | blockComment => exact ⟨closed, h, rfl⟩
    | slash =>
      obtain ⟨hText, hSlash, hStar⟩ := h
      refine ⟨slash, hText, ?_⟩
      rw [next, if_neg hSlash, if_neg hStar]
    | _ => cases hOp

end Phase

end Sample

end StreamLexer
