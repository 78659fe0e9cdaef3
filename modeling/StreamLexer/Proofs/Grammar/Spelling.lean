import StreamLexer.Grammar.TokenKind
import StreamLexer.Symbol
import StreamLexer.Text.Ascii

/-!
# How the tokens of the sample grammar are spelled

Every kind of token is described by the texts it can have and by the symbols that can stand behind
them, since a token is as long as it can be. The texts that are no tokens are described as well: a
byte that no token starts with, and a block comment that is never closed.

## Main definitions

* `TokenKind.operator?`, `TokenKind.long?`: the operators, and those that a second byte extends
* `TokenKind.Spells`: the tokens, each with the symbol behind it
* `TokenKind.Matches`: the tokens, and the texts that are none
-/

namespace StreamLexer

/-- Whether a symbol is a byte of the given class. -/
def Symbol.isIn (cls : UInt8 → Bool) : Symbol → Bool
  | byte b => cls b
  | eof => false

@[simp] theorem Symbol.isIn_byte (cls : UInt8 → Bool) (b : UInt8) : (byte b).isIn cls = cls b := rfl

@[simp] theorem Symbol.isIn_eof (cls : UInt8 → Bool) : eof.isIn cls = false := rfl

namespace Sample

/-- Whether a byte is a letter or the underscore. -/
def isLetter (b : UInt8) : Bool :=
  (0x61 ≤ b && b ≤ 0x7A) || (0x41 ≤ b && b ≤ 0x5A) || b == 0x5F

/-- Whether a byte can stand in a word behind its first byte. -/
def isWordByte (b : UInt8) : Bool := isLetter b || Digits.isDigit b

/-- Whether a byte is a space, a tab, or a part of a line break. -/
def isBlank (b : UInt8) : Bool := b == 0x20 || b == 0x09 || b == 0x0D || b == 0x0A

theorem isLetter_eq_false_of_isDigit {b : UInt8} (h : Digits.isDigit b = true) :
    isLetter b = false := by
  have hNe : b ≠ 0x5F := by
    rintro rfl
    cases h
  simp only [Digits.isDigit, Bool.and_eq_true, decide_eq_true_eq, UInt8.le_iff_toNat_le] at h
  simp only [isLetter, Bool.or_eq_false_iff, Bool.and_eq_false_iff, decide_eq_false_iff_not,
    UInt8.le_iff_toNat_le, beq_eq_false_iff_ne]
  change 48 ≤ b.toNat ∧ b.toNat ≤ 57 at h
  change ((¬ 97 ≤ b.toNat ∨ ¬ b.toNat ≤ 122) ∧ (¬ 65 ≤ b.toNat ∨ ¬ b.toNat ≤ 90)) ∧ b ≠ 0x5F
  exact ⟨by omega, hNe⟩

theorem isWordByte_eq_false_of_isBlank {b : UInt8} (h : isBlank b = true) :
    isWordByte b = false := by
  simp only [isBlank, Bool.or_eq_true, beq_iff_eq] at h
  rcases h with ((rfl | rfl) | rfl) | rfl <;> rfl

/-- One or more bytes of a class. -/
def IsRun (cls : UInt8 → Bool) (x : List UInt8) : Prop := x ≠ [] ∧ ∀ b ∈ x, cls b = true

/-- A letter, and then letters and digits. -/
def IsWord (x : List UInt8) : Prop :=
  ∃ c tail, x = c :: tail ∧ isLetter c = true ∧ ∀ b ∈ tail, isWordByte b = true

theorem isRun_singleton {cls : UInt8 → Bool} {b : UInt8} : IsRun cls [b] ↔ cls b = true := by
  simp [IsRun]

/-- A run goes on with a byte of its class. -/
theorem isRun_concat {cls : UInt8 → Bool} {x : List UInt8} {b : UInt8} (hx : x ≠ []) :
    IsRun cls (x ++ [b]) ↔ IsRun cls x ∧ cls b = true := by
  simp only [IsRun, ne_eq, List.append_ne_nil_of_left_ne_nil hx, not_false_eq_true, hx,
    List.forall_mem_append, List.forall_mem_singleton, true_and]

theorem IsWord.ne_nil {x : List UInt8} (h : IsWord x) : x ≠ [] := by
  obtain ⟨c, tail, rfl, -⟩ := h
  exact List.cons_ne_nil c tail

theorem isWord_singleton {b : UInt8} : IsWord [b] ↔ isLetter b = true := by
  constructor
  · rintro ⟨c, tail, hx, hLetter, -⟩
    obtain ⟨rfl, -⟩ := List.cons.inj hx
    exact hLetter
  · intro h
    exact ⟨b, [], rfl, h, by simp⟩

/-- A word goes on with a letter or a digit. -/
theorem isWord_concat {x : List UInt8} {b : UInt8} (hx : x ≠ []) :
    IsWord (x ++ [b]) ↔ IsWord x ∧ isWordByte b = true := by
  obtain ⟨c, tail, rfl⟩ := List.exists_cons_of_ne_nil hx
  constructor
  · rintro ⟨c', tail', hWord, hLetter, hTail⟩
    obtain ⟨rfl, rfl⟩ := List.cons.inj hWord
    obtain ⟨hTail, hLast⟩ := List.forall_mem_append.mp hTail
    exact ⟨⟨c, tail, rfl, hLetter, hTail⟩, hLast b (List.mem_singleton_self b)⟩
  · rintro ⟨⟨c', tail', hWord, hLetter, hTail⟩, hLast⟩
    obtain ⟨rfl, rfl⟩ := List.cons.inj hWord
    refine ⟨c, tail ++ [b], rfl, hLetter, List.forall_mem_append.mpr ⟨hTail, ?_⟩⟩
    simpa using hLast

end Sample

namespace TokenKind

open Sample

/-- The text of an operator that is always spelled the same. The slash is none of these: it has to
be told from the start of a comment. -/
def symbol? : TokenKind → Option String
  | lParen => some "("
  | rParen => some ")"
  | lBracket => some "["
  | rBracket => some "]"
  | lBrace => some "\x7b"
  | rBrace => some "\x7d"
  | plus => some "+"
  | minus => some "-"
  | star => some "*"
  | assign => some "="
  | eqEq => some "=="
  | not => some "!"
  | ne => some "!="
  | lt => some "<"
  | le => some "<="
  | gt => some ">"
  | ge => some ">="
  | ampersand => some "&"
  | andAnd => some "&&"
  | pipe => some "|"
  | orOr => some "||"
  | _ => none

/-- The bytes of an operator. -/
def operator? (k : TokenKind) : Option (List UInt8) := k.symbol?.map ascii

/-- The operator that extends another by a second byte. -/
def long? : TokenKind → Option TokenKind
  | assign => some eqEq
  | not => some ne
  | lt => some le
  | gt => some ge
  | ampersand => some andAnd
  | pipe => some orOr
  | _ => none

/-- `x`, with `y` behind it, is a token of the kind; the end of the input counts as one. -/
def Spells : TokenKind → List UInt8 → Symbol → Prop
  | eof, x, y => x = [] ∧ y = .eof
  | «if», x, y => x = ascii "if" ∧ y.isIn isWordByte = false
  | ident, x, y => IsWord x ∧ x ≠ ascii "if" ∧ y.isIn isWordByte = false
  | int, x, y => IsRun Digits.isDigit x ∧ y.isIn Digits.isDigit = false
  | white, x, y => IsRun isBlank x ∧ y.isIn isBlank = false
  | lineComment, x, y => ascii "//" <+: x ∧ 0x0A ∉ x ∧ (y = .byte 0x0A ∨ y = .eof)
  | blockComment, x, _ => ∃ u, x = ascii "/*" ++ u ++ ascii "*/" ∧ ¬ ascii "*/" <:+: u ++ ascii "*"
  | slash, x, y => x = ascii "/" ∧ y ≠ .byte 0x2F ∧ y ≠ .byte 0x2A
  | unmatched, _, _ => False
  | k, x, y => k.operator? = some x ∧
      ∀ long b, k.long? = some long → long.operator? = some (x ++ [b]) → y ≠ .byte b

/-- Some token starts with the byte. -/
def Starts (b : UInt8) : Prop := ∃ (k : TokenKind) (tail : List UInt8) (y : Symbol),
  k.Spells (b :: tail) y

/-- `x`, with `y` behind it, is a token of the kind, or one of the texts that are no tokens: a byte
that starts none, and a block comment that is not closed. -/
def Matches : TokenKind → List UInt8 → Symbol → Prop
  | unmatched, x, y => (∃ b, x = [b] ∧ ¬ Starts b) ∨
      (ascii "/*" <+: x ∧ ¬ ascii "*/" <:+: x.drop 2 ∧ y = .eof)
  | k, x, y => k.Spells x y

/-- An operator is its bytes, with nothing behind them that extends it. -/
theorem spells_iff_of_operator? {k : TokenKind} {op x : List UInt8} {y : Symbol}
    (h : k.operator? = some op) : k.Spells x y ↔ x = op ∧
      ∀ long b, k.long? = some long → long.operator? = some (op ++ [b]) → y ≠ .byte b := by
  have hSpells : k.Spells x y ↔ k.operator? = some x ∧
      ∀ long b, k.long? = some long → long.operator? = some (x ++ [b]) → y ≠ .byte b := by
    cases k <;> first | rfl | cases h
  rw [hSpells, h, Option.some_inj]
  constructor
  · rintro ⟨rfl, hStop⟩
    exact ⟨rfl, hStop⟩
  · rintro ⟨rfl, hStop⟩
    exact ⟨rfl, hStop⟩

theorem matches_iff_spells {k : TokenKind} (h : k ≠ unmatched) {x : List UInt8} {y : Symbol} :
    k.Matches x y ↔ k.Spells x y := by
  cases k <;> first | rfl | exact absurd rfl h

theorem matches_iff_of_operator? {k : TokenKind} {op x : List UInt8} {y : Symbol}
    (h : k.operator? = some op) : k.Matches x y ↔ x = op ∧
      ∀ long b, k.long? = some long → long.operator? = some (op ++ [b]) → y ≠ .byte b := by
  rw [matches_iff_spells, spells_iff_of_operator? h]
  rintro rfl
  cases h

theorem mem_all (k : TokenKind) : k ∈ all := List.mem_of_getElem? k.ofAction?_action

theorem action_inj {k k' : TokenKind} (h : k.action = k'.action) : k = k' := by
  have hKind := ofAction?_action k
  rw [h, ofAction?_action] at hKind
  exact (Option.some.inj hKind).symm

theorem operator?_unique {k k' : TokenKind} {op : List UInt8} (h : k.operator? = some op)
    (h' : k'.operator? = some op) : k = k' := by
  have hUnique : ∀ k ∈ all, ∀ k' ∈ all,
      k.operator? = k'.operator? → k.operator?.isSome → k = k' := by
    decide +kernel
  exact hUnique k k.mem_all k' k'.mem_all (h.trans h'.symm) (by simp [h])

/-- The bytes of operators stand in no other token but comments. -/
theorem byte_of_operator? {k : TokenKind} {op : List UInt8} {b : UInt8}
    (h : k.operator? = some op) (hb : b ∈ op) :
    isWordByte b = false ∧ isBlank b = false ∧ b ≠ 0x2F := by
  have hApart : ∀ k ∈ all, ∀ op ∈ k.operator?, ∀ b ∈ op,
      isWordByte b = false ∧ isBlank b = false ∧ b ≠ 0x2F := by
    decide +kernel
  exact hApart k k.mem_all op h b hb

/-- Every operator starts with one of a single byte. -/
theorem exists_operator?_head {k : TokenKind} {b : UInt8} {tail : List UInt8}
    (h : k.operator? = some (b :: tail)) : ∃ short : TokenKind, short.operator? = some [b] := by
  have hHead : ∀ k ∈ all, ∀ op ∈ k.operator?,
      ∃ short ∈ all, short.operator? = some (op.take 1) := by
    decide +kernel
  obtain ⟨short, -, hShort⟩ := hHead k k.mem_all _ h
  exact ⟨short, hShort⟩

/-- An operator of two bytes extends one of a single byte, and none is longer. -/
theorem exists_operator?_short {k : TokenKind} {x : List UInt8} {b : UInt8}
    (h : k.operator? = some (x ++ [b])) :
    x = [] ∨ ∃ short : TokenKind, short.operator? = some x ∧ short.long? = some k := by
  have hInit : ∀ k ∈ all, ∀ op ∈ k.operator?, op.dropLast = [] ∨
      ∃ short ∈ all, short.operator? = some op.dropLast ∧ short.long? = some k := by
    decide +kernel
  have hShort := hInit k k.mem_all _ h
  rw [List.dropLast_concat] at hShort
  exact hShort.imp_right fun ⟨short, _, hOp, hLong⟩ => ⟨short, hOp, hLong⟩

/-- The operator of a single byte. -/
def ofByte? (b : UInt8) : Option TokenKind :=
  all.find? fun k => k.operator? = some [b]

theorem ofByte?_eq_some_iff {b : UInt8} {k : TokenKind} :
    ofByte? b = some k ↔ k.operator? = some [b] := by
  constructor
  · intro h
    simpa using List.find?_some h
  · intro h
    obtain ⟨k', hFound⟩ : ∃ k', ofByte? b = some k' := by
      apply Option.isSome_iff_exists.mp
      exact List.find?_isSome.mpr ⟨k, k.mem_all, by simpa using h⟩
    obtain rfl := operator?_unique h (by simpa using List.find?_some hFound)
    exact hFound

/-- The bytes that tokens start with. -/
theorem starts_iff {b : UInt8} : Starts b ↔ isWordByte b = true ∨ isBlank b = true ∨ b = 0x2F ∨
    ∃ k, ofByte? b = some k := by
  constructor
  · rintro ⟨k, tail, y, hSpells⟩
    cases hOp : k.operator? with
    | some op =>
      obtain ⟨rfl, -⟩ := (spells_iff_of_operator? hOp).mp hSpells
      obtain ⟨k', hFirst⟩ := exists_operator?_head hOp
      exact .inr (.inr (.inr ⟨k', ofByte?_eq_some_iff.mpr hFirst⟩))
    | none =>
      -- no operator
      cases k with
      | ident =>
        obtain ⟨⟨c, tail', hText, hLetter, -⟩, -⟩ := hSpells
        obtain ⟨rfl, -⟩ := List.cons.inj hText
        exact .inl (by simp [isWordByte, hLetter])
      | «if» =>
        obtain ⟨rfl, -⟩ : b = 0x69 ∧ tail = [0x66] := by simpa [ascii] using hSpells.1
        exact .inl (by decide)
      | int => exact .inl (by simp [isWordByte, hSpells.1.2 b List.mem_cons_self])
      | white => exact .inr (.inl (hSpells.1.2 b List.mem_cons_self))
      | lineComment =>
        obtain ⟨rfl, -⟩ : 0x2F = b ∧ [0x2F] <+: tail := List.cons_prefix_cons.mp hSpells.1
        exact .inr (.inr (.inl rfl))
      | blockComment =>
        obtain ⟨u, hText, -⟩ := hSpells
        obtain ⟨rfl, -⟩ : b = 0x2F ∧ tail = 0x2A :: (u ++ ascii "*/") := List.cons.inj hText
        exact .inr (.inr (.inl rfl))
      | slash =>
        obtain ⟨rfl, -⟩ : b = 0x2F ∧ tail = [] := List.cons.inj hSpells.1
        exact .inr (.inr (.inl rfl))
      | eof => cases hSpells.1
      | unmatched => cases hSpells
      | _ => cases hOp
  · rintro (hWord | hBlank | rfl | ⟨k, hOp⟩)
    · rcases (Bool.or_eq_true _ _).mp hWord with hLetter | hDigit
      · exact ⟨.ident, [], .eof, isWord_singleton.mpr hLetter, by simp [ascii], rfl⟩
      · exact ⟨.int, [], .eof, isRun_singleton.mpr hDigit, rfl⟩
    · exact ⟨.white, [], .eof, isRun_singleton.mpr hBlank, rfl⟩
    · exact ⟨.slash, [], .eof, rfl, by simp, by simp⟩
    · have hText := ofByte?_eq_some_iff.mp hOp
      exact ⟨k, [], .eof, (spells_iff_of_operator? hText).mpr ⟨rfl, by simp⟩⟩

end TokenKind

end StreamLexer
