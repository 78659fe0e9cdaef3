import StreamLexer.Encoding.Json.Value
import StreamLexer.Proofs.Text.Digits

/-!
# Printed values are read back

A value has a sequence of tokens, which the machine reads back into the value, whatever the value
and whatever array or object it is part of. The text of a value is read into these tokens if its
numbers are numbers and its strings need no escape: a word goes on up to the mark behind it, and a
mark stands for itself.

## Main definitions

* `Json.Value.tokens`: the tokens of a value
* `Json.Written`: values whose text is that of their tokens
* `Json.Spells`: a text is read into some tokens, the last of which may still be open

## Main results

* `Json.ofTokens?_tokens`: tokens are read back into their value
* `Json.spells_print`: the text of a written value spells its tokens
* `Json.parse?_print`: a written value is read back from its text
-/

namespace StreamLexer.Json

open Digits (isDigit areDigits)

/-! ### The tokens of a value -/

mutual

/-- The tokens of a value. -/
def Value.tokens : Value → List Token
  | .null => [.null]
  | .bool b => [.bool b]
  | .number text => [.number text]
  | .string raw => [.string raw]
  | .array items => .arrayOpen :: itemTokens items ++ [.arrayClose]
  | .object members => .objectOpen :: memberTokens members ++ [.objectClose]

/-- The tokens of values, separated by commas. -/
def itemTokens : List Value → List Token
  | [] => []
  | [v] => v.tokens
  | v :: w :: rest => v.tokens ++ .comma :: itemTokens (w :: rest)

/-- The tokens of members, separated by commas. -/
def memberTokens : List (List UInt8 × Value) → List Token
  | [] => []
  | [(key, v)] => .string key :: .colon :: v.tokens
  | (key, v) :: m :: rest => .string key :: .colon :: v.tokens ++ .comma :: memberTokens (m :: rest)

end

/-- In front of the first item of an array, the machine reads a value as anywhere else. -/
theorem foldlM_firstItem (v : Value) (more : List Token) (stack : List Frame) :
    (v.tokens ++ more).foldlM Stage.step? (.firstItem (.array [] :: stack)) =
      (v.tokens ++ more).foldlM Stage.step? (.value (.array [] :: stack)) := by
  cases v <;> simp [Value.tokens, Stage.step?]

theorem itemTokens_cons (v : Value) (rest : List Value) :
    ∃ more, itemTokens (v :: rest) = v.tokens ++ more := by
  cases rest with
  | nil => exact ⟨[], by rw [itemTokens, List.append_nil]⟩
  | cons w rest => exact ⟨_, by rw [itemTokens]⟩

mutual

/-- **The machine reads the tokens of a value**, inside of any array or object. -/
theorem foldlM_tokens (v : Value) (stack : List Frame) :
    v.tokens.foldlM Stage.step? (.value stack) = some (.complete v stack) := by
  cases v with
  | array items =>
    cases items with
    | nil => rfl
    | cons v rest =>
      have hItems := foldlM_itemTokens v rest [] stack
      obtain ⟨more, hMore⟩ := itemTokens_cons v rest
      rw [hMore, List.append_assoc, ← foldlM_firstItem, ← List.append_assoc, ← hMore] at hItems
      rw [Value.tokens]
      exact hItems
  | object members =>
    cases members with
    | nil => rfl
    | cons m rest =>
      obtain ⟨key, v⟩ := m
      rw [Value.tokens]
      exact foldlM_memberTokens key v rest [] stack (.firstKey stack) rfl
  | _ => rfl
termination_by sizeOf v

/-- The machine reads the items of an array behind those read before, and its end. -/
theorem foldlM_itemTokens (v : Value) (rest items : List Value) (stack : List Frame) :
    (itemTokens (v :: rest) ++ [Token.arrayClose]).foldlM Stage.step?
        (.value (.array items :: stack)) =
      some (.complete (.array (items.reverse ++ v :: rest)) stack) := by
  cases rest with
  | nil =>
    rw [itemTokens, List.foldlM_append, foldlM_tokens v]
    simp [Stage.step?]
  | cons w rest =>
    have hRest := foldlM_itemTokens w rest (v :: items) stack
    rw [itemTokens, List.append_assoc, List.foldlM_append, foldlM_tokens v]
    simpa [Stage.step?] using hRest
termination_by sizeOf (v :: rest)

/-- The machine reads the members of an object behind those read before, and its end. -/
theorem foldlM_memberTokens (key : List UInt8) (v : Value)
    (rest members : List (List UInt8 × Value)) (stack : List Frame) (stage : Stage)
    (hKey : stage.step? (.string key) = some (.colon members key stack)) :
    (memberTokens ((key, v) :: rest) ++ [Token.objectClose]).foldlM Stage.step? stage =
      some (.complete (.object (members.reverse ++ (key, v) :: rest)) stack) := by
  have hValue := foldlM_tokens v (.object members key :: stack)
  cases rest with
  | nil =>
    rw [memberTokens, List.cons_append, List.foldlM_cons, hKey]
    show (v.tokens ++ _).foldlM Stage.step? (.value (.object members key :: stack)) = _
    rw [List.foldlM_append, hValue]
    simp [Stage.step?]
  | cons m rest =>
    obtain ⟨key', w⟩ := m
    have hRest := foldlM_memberTokens key' w rest ((key, v) :: members) stack (.key _ stack) rfl
    rw [memberTokens, List.append_assoc, List.cons_append, List.foldlM_cons, hKey]
    show (v.tokens ++ _).foldlM Stage.step? (.value (.object members key :: stack)) = _
    rw [List.foldlM_append, hValue]
    simpa [Stage.step?] using hRest
termination_by sizeOf ((key, v) :: rest)

end

/-- **Tokens are read back into their value.** -/
theorem ofTokens?_tokens (v : Value) : Value.ofTokens? v.tokens = some v := by
  simp only [Value.ofTokens?, foldlM_tokens]

/-! ### The text of a value -/

/-- Whether a byte goes on with the word before it. -/
def isWordByte (b : UInt8) : Bool := !(isBlank b || b == 0x22 || (mark? b).isSome)

/-- Whether a byte may stand in a string by itself. -/
def isStringByte (b : UInt8) : Bool := b != 0x22 && b != 0x5C && !(b < 0x20)

/-- Values whose text is that of their tokens: numbers have the form of one, and strings are written
without escapes. -/
inductive Written : Value → Prop
  | null : Written .null
  | bool (b : Bool) : Written (.bool b)
  | number {text : List UInt8} :
      word? text = some (.number text) → text.all isWordByte = true → Written (.number text)
  | string {raw : List UInt8} : raw.all isStringByte = true → Written (.string raw)
  | array {items : List Value} : (∀ v ∈ items, Written v) → Written (.array items)
  | object {members : List (List UInt8 × Value)} :
      (∀ m ∈ members, m.1.all isStringByte = true) → (∀ m ∈ members, Written m.2) →
      Written (.object members)

theorem isWordByte_of_isDigit {b : UInt8} (h : isDigit b = true) : isWordByte b = true := by
  obtain ⟨d, hd, rfl⟩ := Digits.exists_ofDigit h
  revert d
  decide

theorem isBlank_of_mark? {b : UInt8} {t : Token} (h : mark? b = some t) :
    isBlank b = false ∧ b ≠ 0x22 := by
  -- one case for each mark, and one for all other bytes
  unfold mark? at h
  repeat' split at h
  all_goals first | cases h; done | (subst b; decide)

theorem readGap_of_mark? {found : List Token} {b : UInt8} {t : Token} (h : mark? b = some t) :
    readGap found b = (t :: found, .gap) := by
  obtain ⟨hBlank, hQuote⟩ := isBlank_of_mark? h
  simp [readGap, hBlank, hQuote, h]

/-- The reading stands behind the tokens found, or in the word that is the last of them. -/
inductive Behind : List Token → Lexed → Prop
  | gap {found : List Token} : Behind found (found, .gap)
  | word {found : List Token} {read : List UInt8} {t : Token} :
      word? read.reverse = some t → Behind (t :: found) (found, .word read)

/-- A mark ends the word before it. -/
theorem Behind.readByte?_mark {found : List Token} {l : Lexed} {b : UInt8} {t : Token}
    (h : Behind found l) (hMark : mark? b = some t) :
    readByte? l b = some (t :: found, .gap) := by
  cases h with
  | gap => simp only [readByte?, readGap_of_mark? hMark]
  | word hWord => simp [readByte?, hMark, hWord, readGap_of_mark? hMark]

/-- The bytes are read into the tokens, the last of which may be a word that still goes on. -/
def Spells (bytes : List UInt8) (ts : List Token) : Prop :=
  ∀ found, ∃ l, bytes.foldlM readByte? (found, .gap) = some l ∧ Behind (ts.reverse ++ found) l

/-- The bytes are read into the tokens, none of which can go on. -/
def Closes (bytes : List UInt8) (ts : List Token) : Prop :=
  ∀ found, bytes.foldlM readByte? (found, .gap) = some (ts.reverse ++ found, .gap)

section Spelling

variable {bytes more : List UInt8} {ts us : List Token}

theorem Closes.spells (h : Closes bytes ts) : Spells bytes ts := fun found =>
  ⟨_, h found, .gap⟩

theorem Closes.append (h : Closes bytes ts) (hMore : Spells more us) :
    Spells (bytes ++ more) (ts ++ us) := by
  intro found
  obtain ⟨l, hRead, hBehind⟩ := hMore (ts.reverse ++ found)
  refine ⟨l, ?_, by simpa using hBehind⟩
  rw [List.foldlM_append, h found]
  exact hRead

/-- A mark closes what it stands behind. -/
theorem Spells.mark (h : Spells bytes ts) {b : UInt8} {t : Token} (hMark : mark? b = some t) :
    Closes (bytes ++ [b]) (ts ++ [t]) := by
  intro found
  obtain ⟨l, hRead, hBehind⟩ := h found
  rw [List.foldlM_append, hRead]
  simp [hBehind.readByte?_mark hMark]

theorem closes_nil : Closes [] [] := fun _ => rfl

theorem readByte?_word {read : List UInt8} {b : UInt8} (h : isWordByte b = true)
    (found : List Token) : readByte? (found, .word read) b = some (found, .word (b :: read)) := by
  simp only [isWordByte, Bool.not_eq_true'] at h
  simp [readByte?, h]

theorem readByte?_string {read : List UInt8} {b : UInt8} (h : isStringByte b = true)
    (found : List Token) :
    readByte? (found, .string read) b = some (found, .string (b :: read)) := by
  simp only [isStringByte, Bool.and_eq_true, bne_iff_ne, Bool.not_eq_true',
    decide_eq_false_iff_not] at h
  simp [readByte?, h]

/-- Bytes that each go on with what is being read do so in a row. -/
theorem foldlM_readByte?_of_all {reading : List UInt8 → Reading} {goesOn : UInt8 → Bool}
    {found : List Token}
    (hByte : ∀ {read b}, goesOn b = true →
      readByte? (found, reading read) b = some (found, reading (b :: read)))
    {bytes : List UInt8} (hAll : bytes.all goesOn = true) (read : List UInt8) :
    bytes.foldlM readByte? (found, reading read) =
      some (found, reading (bytes.reverse ++ read)) := by
  induction bytes generalizing read with
  | nil => rfl
  | cons b bytes ih =>
    obtain ⟨hFirst, hRest⟩ : goesOn b = true ∧ bytes.all goesOn = true := by simpa using hAll
    rw [List.foldlM_cons, hByte hFirst]
    simpa using ih hRest (b :: read)

/-- **A word spells its token.** -/
theorem spells_word {word : List UInt8} {t : Token} (hWord : word? word = some t)
    (hBytes : word.all isWordByte = true) : Spells word [t] := by
  intro found
  cases word with
  | nil => cases hWord
  | cons b word =>
    obtain ⟨hByte, hRest⟩ : isWordByte b = true ∧ word.all isWordByte = true := by
      simpa using hBytes
    have hFirst : readByte? (found, .gap) b = some (found, .word [b]) := by
      simp only [isWordByte, Bool.not_eq_true', Bool.or_eq_false_iff, beq_eq_false_iff_ne,
        Option.isSome_eq_false_iff, Option.isNone_iff_eq_none] at hByte
      simp [readByte?, readGap, hByte]
    refine ⟨(found, .word (word.reverse ++ [b])), ?_, .word (by simpa using hWord)⟩
    rw [List.foldlM_cons, hFirst]
    exact foldlM_readByte?_of_all (fun h => readByte?_word h found) hRest [b]

/-- **A string without escapes closes its token.** -/
theorem closes_quoted {raw : List UInt8} (h : raw.all isStringByte = true) :
    Closes (quoted raw) [.string raw] := by
  intro found
  have hOpen : readByte? (found, .gap) 0x22 = some (found, .string []) := rfl
  rw [quoted, List.cons_append, List.foldlM_cons, hOpen]
  show (raw ++ [0x22]).foldlM readByte? (found, .string []) = _
  rw [List.foldlM_append, foldlM_readByte?_of_all (fun h => readByte?_string h found) h]
  simp [readByte?]

/-- Items that spell their tokens do so in a row, with commas between them. -/
theorem spells_printItems {items : List Value}
    (h : ∀ v ∈ items, Spells v.print v.tokens) :
    Spells (printItems items) (itemTokens items) := by
  induction items with
  | nil => exact closes_nil.spells
  | cons v rest ih =>
    obtain ⟨hFirst, hRest⟩ := List.forall_mem_cons.mp h
    cases rest with
    | nil => rwa [printItems, itemTokens]
    | cons w rest =>
      have hComma : Closes (v.print ++ [0x2C]) (v.tokens ++ [.comma]) := hFirst.mark rfl
      rw [printItems, itemTokens]
      simpa using hComma.append (ih hRest)

/-- A key without escapes and the mark behind it. -/
theorem closes_key {key : List UInt8} (h : key.all isStringByte = true) :
    Closes (quoted key ++ [0x3A]) [.string key, .colon] :=
  (closes_quoted h).spells.mark rfl

/-- Members that spell their tokens do so in a row, with commas between them. -/
theorem spells_printMembers {members : List (List UInt8 × Value)}
    (hKeys : ∀ m ∈ members, m.1.all isStringByte = true)
    (h : ∀ m ∈ members, Spells m.2.print m.2.tokens) :
    Spells (printMembers members) (memberTokens members) := by
  induction members with
  | nil => exact closes_nil.spells
  | cons m rest ih =>
    obtain ⟨hFirst, hRest⟩ := List.forall_mem_cons.mp h
    obtain ⟨hKey, hLater⟩ := List.forall_mem_cons.mp hKeys
    obtain ⟨key, v⟩ := m
    have hMember : Spells (quoted key ++ [0x3A] ++ v.print) ([.string key, .colon] ++ v.tokens) :=
      (closes_key hKey).append hFirst
    cases rest with
    | nil =>
      rw [printMembers, memberTokens]
      simpa using hMember
    | cons m rest =>
      have hComma := hMember.mark (b := 0x2C) rfl
      rw [printMembers, memberTokens]
      simpa using hComma.append (ih hLater hRest)

end Spelling

/-- **The text of a written value spells its tokens.** -/
theorem spells_print {v : Value} (h : Written v) : Spells v.print v.tokens := by
  induction h with
  | null => exact spells_word rfl rfl
  | bool b => cases b <;> exact spells_word rfl rfl
  | number hNumber hBytes => exact spells_word hNumber hBytes
  | string hRaw => exact (closes_quoted hRaw).spells
  | array _ ih =>
    have hOpen : Closes [0x5B] [.arrayOpen] := closes_nil.spells.mark rfl
    rw [Value.print, Value.tokens]
    exact ((hOpen.append (spells_printItems ih)).mark (b := 0x5D) rfl).spells
  | object hKeys _ ih =>
    have hOpen : Closes [0x7B] [.objectOpen] := closes_nil.spells.mark rfl
    rw [Value.print, Value.tokens]
    exact ((hOpen.append (spells_printMembers hKeys ih)).mark (b := 0x7D) rfl).spells

theorem tokens?_of_spells {bytes : List UInt8} {ts : List Token} (h : Spells bytes ts) :
    tokens? bytes = some ts := by
  obtain ⟨l, hRead, hBehind⟩ := h []
  rw [List.append_nil] at hBehind
  generalize hFound : ts.reverse = found at hBehind
  obtain rfl := List.reverse_eq_iff.mp hFound
  rw [tokens?, hRead]
  cases hBehind with
  | gap => rfl
  | word hWord => simp [hWord]

/-- **A written value is read back from its text.** -/
theorem parse?_print {v : Value} (h : Written v) : parse? v.print = some v := by
  rw [parse?, tokens?_of_spells (spells_print h), Option.bind_some, ofTokens?_tokens]

end StreamLexer.Json
