import StreamLexer.Proofs.Encoding.Compact

/-!
# Cut off and padded tables

The compact form says how long it is: the header counts the states, and each state says whether a
row follows. So no tables' bytes are the beginning of other tables' bytes, and bytes that are cut
off or go on behind the last state hold no tables at all. They are refused by the reader itself,
before any check of tables sees what is there of them.

The reader takes slices off the front of what is left: the mark, and one word after the other. A
slice that is longer than what is left does not exist. The reader compares lengths before it takes a
slice, on any bytes whatever, so that no slice is missing (`Compact.decodeBySlices_eq`).

## Main definitions

* `OutOfRange`, `Slice.take`: a slice off the front, or the access that would be out of range
* `Slice.Read`, `Slice.Read.andThen`: reading by slices
* `Compact.decodeBySlices`: the automaton that a byte string holds, read by slices

## Main results

* `Word.Inverts.cancel`: what a reader inverts is written without an ambiguity
* `Compact.encodeTables_cancel`: no tables' bytes begin with other tables' bytes
* `Compact.decodeBySlices_eq`: reading by slices never goes out of range
* `Compact.decode_cut_or_padded`: cut off and padded tables are refused as such
-/

namespace StreamLexer

/-- An access to more bytes than there are. -/
structure OutOfRange where
  wanted : Nat
  left : Nat
deriving DecidableEq, Repr

namespace Slice

/-- The first `n` bytes, and the bytes behind them. -/
def take (n : Nat) (bytes : List UInt8) : Except OutOfRange (List UInt8 × List UInt8) :=
  if n ≤ bytes.length then .ok (bytes.take n, bytes.drop n) else .error ⟨n, bytes.length⟩

/-- What reading by slices comes to: an access out of range, or what reading comes to. -/
abbrev Read (α : Type) := Except OutOfRange (Word.Read α)

/-- Goes on with what is read, and with the bytes behind it. -/
def Read.andThen {α β : Type} (r : Read α) (f : α → List UInt8 → Read β) : Read β :=
  match r with
  | .error access => .error access
  | .ok (.error fault) => .ok (.error fault)
  | .ok (.ok (x, rest)) => f x rest

/-- The number that bytes stand for, the first of them counting least. -/
def toNat (bytes : List UInt8) : Nat := bytes.foldr (fun b n => b.toNat + 256 * n) 0

/-- Reads a word of so many bytes. -/
def readWord {ω : Type} (width : Nat) (ofNat : Nat → ω) (bytes : List UInt8) : Read ω :=
  if bytes.length < width then .ok (.error (.truncated (8 * width)))
  else match take width bytes with
    | .error access => .error access
    | .ok (word, rest) => .ok (.ok (ofNat (toNat word), rest))

/-- Reads so many items, one after the other. -/
def readMany {α : Type} (read : List UInt8 → Read α) : Nat → List UInt8 → Read (List α)
  | 0, bytes => .ok (.ok ([], bytes))
  | n + 1, bytes => (read bytes).andThen fun first bytes =>
    (readMany read n bytes).andThen fun others bytes => .ok (.ok (first :: others, bytes))

theorem take_of_le {n : Nat} {bytes : List UInt8} (h : n ≤ bytes.length) :
    take n bytes = .ok (bytes.take n, bytes.drop n) := if_pos h

@[simp] theorem andThen_ok {α β : Type} (x : α) (rest : List UInt8) (f : α → List UInt8 → Read β) :
    Read.andThen (.ok (.ok (x, rest))) f = f x rest := rfl

theorem readWord_u16 (bytes : List UInt8) :
    readWord 2 UInt16.ofNat bytes = .ok (Word.readU16 bytes) := by
  match bytes with
  | [] | [_] => rfl
  | a :: b :: rest =>
    have hLong : ¬ (a :: b :: rest).length < 2 := by simp
    rw [readWord, if_neg hLong, take_of_le (Nat.not_lt.mp hLong)]
    simp [Word.readU16, toNat]

theorem readWord_u32 (bytes : List UInt8) :
    readWord 4 UInt32.ofNat bytes = .ok (Word.readU32 bytes) := by
  match bytes with
  | [] | [_] | [_, _] | [_, _, _] => rfl
  | a :: b :: c :: d :: rest =>
    have hLong : ¬ (a :: b :: c :: d :: rest).length < 4 := by simp
    have hValue : toNat [a, b, c, d] =
        a.toNat + 256 * b.toNat + 65536 * c.toNat + 16777216 * d.toNat := by
      simp only [toNat, List.foldr_cons, List.foldr_nil]
      omega
    rw [readWord, if_neg hLong, take_of_le (Nat.not_lt.mp hLong)]
    simp only [List.take_succ_cons, List.take_zero, List.drop_succ_cons, List.drop_zero, hValue,
      Word.readU32]

/-- A counted sequence is read without an access out of range if its items are. -/
theorem readMany_eq {α : Type} {read : List UInt8 → Read α} {plain : List UInt8 → Word.Read α}
    (h : ∀ bytes, read bytes = .ok (plain bytes)) (n : Nat) (bytes : List UInt8) :
    readMany read n bytes = .ok (Word.readMany plain n bytes) := by
  induction n generalizing bytes with
  | zero => rfl
  | succ n ih =>
    rw [readMany, Word.readMany, h]
    rcases plain bytes with fault | ⟨first, bytes⟩
    · rfl
    · rw [andThen_ok, ih]
      dsimp only
      rcases Word.readMany plain n bytes with fault | ⟨others, bytes⟩ <;> rfl

end Slice

/-- **What a reader inverts is written without an ambiguity**: the bytes of an item do not begin
with those of another. -/
theorem Word.Inverts.cancel {α : Type} {read : List UInt8 → Read α} {Fits : α → Prop}
    {write : α → List UInt8} (h : Inverts read Fits write) {x y : α} {rest rest' : List UInt8}
    (hx : Fits x) (hy : Fits y) (hBytes : write x ++ rest = write y ++ rest') :
    x = y ∧ rest = rest' := by
  have hRead : read (write x ++ rest) = .ok (x, rest) := (h _ _ _).mpr ⟨hx, rfl⟩
  have hRead' : read (write x ++ rest) = .ok (y, rest') := (h _ _ _).mpr ⟨hy, hBytes⟩
  exact Prod.mk.inj (Except.ok.inj (hRead.symm.trans hRead'))

namespace Compact

/-- Tables can be written with a class count that all rows agree with. -/
structure Encodable (t : Tables) (classCount : Nat) : Prop where
  size_lt : t.states.size < UInt32.size
  classCount_lt : classCount < UInt32.size
  fits : ∀ state ∈ t.states, Fits classCount state

theorem encodable_of_read {bytes : List UInt8} {t : Tables} (h : read bytes = .ok t) :
    ∃ n, Encodable t n ∧ bytes = encodeTables t n := by
  obtain ⟨hSize, n, hn, hFits, hBytes⟩ := read_eq_ok_iff.mp h
  exact ⟨n, ⟨hSize, hn, hFits⟩, hBytes⟩

theorem encodable_classCount (a : Automaton) : Encodable a.toTables a.classCount where
  size_lt := a.wellFormed.size_lt
  classCount_lt := classCount_lt a
  fits _ hState := (fits_iff hState _).mpr fun _ => rfl

/-- **No tables' bytes begin with other tables' bytes.** -/
theorem encodeTables_cancel {t t' : Tables} {n n' : Nat} {more more' : List UInt8}
    (ht : Encodable t n) (ht' : Encodable t' n')
    (hBytes : encodeTables t n ++ more = encodeTables t' n' ++ more') :
    t = t' ∧ n = n' ∧ more = more' := by
  obtain ⟨classes, states⟩ := t
  obtain ⟨classes', states'⟩ := t'
  simp only [encodeTables, List.append_assoc, List.append_cancel_left_eq] at hBytes
  obtain ⟨hHeader, hRest⟩ := inverts_readHeader.cancel
    ⟨ht.size_lt, ht.classCount_lt⟩ ⟨ht'.size_lt, ht'.classCount_lt⟩ hBytes
  simp only [Prod.mk.injEq] at hHeader
  obtain ⟨hSize, rfl, rfl⟩ := hHeader
  have hMany := (inverts_readState n).readMany states.size
  obtain ⟨hStates, hMore⟩ := hMany.cancel
    ⟨Array.length_toList, fun state h => ht.fits state (Array.mem_toList_iff.mp h)⟩
    ⟨Array.length_toList.trans hSize.symm,
      fun state h => ht'.fits state (Array.mem_toList_iff.mp h)⟩
    hRest
  obtain rfl : states = states' := Array.toList_inj.mp hStates
  exact ⟨rfl, rfl, hMore⟩

/-- Bytes that hold tables do not go on to be the bytes of an automaton. -/
theorem eq_nil_of_read_append {bytes more : List UInt8} {t : Tables} {a : Automaton}
    (hRead : read bytes = .ok t) (hBytes : encode a = bytes ++ more) : more = [] := by
  obtain ⟨n, ht, rfl⟩ := encodable_of_read hRead
  have hSame : encodeTables t n ++ more = encodeTables a.toTables a.classCount ++ [] := by
    rw [← hBytes, List.append_nil, encode_eq_encodeTables]
  exact (encodeTables_cancel ht (encodable_classCount a) hSame).2.2

/-- Bytes that go on behind those of an automaton hold no tables. -/
theorem eq_nil_of_read_encode_append {more : List UInt8} {t : Tables} {a : Automaton}
    (hRead : read (encode a ++ more) = .ok t) : more = [] := by
  obtain ⟨n, ht, hBytes⟩ := encodable_of_read hRead
  have hSame : encodeTables a.toTables a.classCount ++ more = encodeTables t n ++ [] := by
    rw [← encode_eq_encodeTables, hBytes, List.append_nil]
  exact (encodeTables_cancel (encodable_classCount a) ht hSame).2.2

/-! ### Reading by slices -/

/-- Reads a state with the given number of targets. -/
def readStateBySlices (classes : Nat) (bytes : List UInt8) : Slice.Read State :=
  (Slice.readWord 4 UInt32.ofNat bytes).andThen fun tag bytes =>
    if tag = dispatchTag then
      (Slice.readMany (Slice.readWord 4 UInt32.ofNat) classes bytes).andThen fun row bytes =>
        .ok (.ok (.dispatch row.toArray, bytes))
    else .ok (.ok (.terminal tag, bytes))

/-- Reads the numbers of states and of classes, and the class map. -/
def readHeaderBySlices (bytes : List UInt8) : Slice.Read (Nat × Nat × ClassMap) :=
  (Slice.readWord 4 UInt32.ofNat bytes).andThen fun states bytes =>
    (Slice.readWord 4 UInt32.ofNat bytes).andThen fun classCount bytes =>
      (Slice.readMany (Slice.readWord 2 UInt16.ofNat) 257 bytes).andThen fun classes bytes =>
        match ClassMap.ofList? classes with
        | none => .ok (.error (.truncated 16))
        | some classes => .ok (.ok ((states.toNat, classCount.toNat, classes), bytes))

/-- The tables that a byte string holds. -/
def readBySlices (bytes : List UInt8) : Except OutOfRange (Except FormatFault Tables) :=
  if bytes.length < 16 then .ok (.error .tooShort)
  else match Slice.take 8 bytes with
    | .error access => .error access
    | .ok (mark, bytes) =>
      if mark ≠ magic then .ok (.error .badMagic)
      else match readHeaderBySlices bytes with
        | .error access => .error access
        | .ok (.error fault) => .ok (.error fault)
        | .ok (.ok ((count, classCount, classes), bytes)) =>
          if bytes.length / 4 < count then .ok (.error (.cannotFit count bytes.length))
          else match Slice.readMany (readStateBySlices classCount) count bytes with
            | .error access => .error access
            | .ok (.error fault) => .ok (.error fault)
            | .ok (.ok (states, [])) => .ok (.ok ⟨classes, states.toArray⟩)
            | .ok (.ok (_, rest)) => .ok (.error (.trailing rest.length))

/-- The automaton that a byte string holds, read by slices. -/
def decodeBySlices (bytes : List UInt8) : Except OutOfRange (Except LexError Automaton) :=
  match readBySlices bytes with
  | .error access => .error access
  | .ok (.error fault) => .ok (.error (.tableFormat fault))
  | .ok (.ok t) => .ok ((Automaton.ofTables t).mapError .malformed)

theorem readStateBySlices_eq (classes : Nat) (bytes : List UInt8) :
    readStateBySlices classes bytes = .ok (readState classes bytes) := by
  rw [readStateBySlices, readState, Slice.readWord_u32]
  rcases Word.readU32 bytes with fault | ⟨tag, bytes⟩
  · rfl
  · simp only [Slice.andThen_ok, Slice.readMany_eq Slice.readWord_u32]
    split
    · rcases Word.readMany Word.readU32 classes bytes with fault | ⟨row, bytes⟩ <;> rfl
    · rfl

theorem readHeaderBySlices_eq (bytes : List UInt8) :
    readHeaderBySlices bytes = .ok (readHeader bytes) := by
  rw [readHeaderBySlices, readHeader, Slice.readWord_u32]
  rcases Word.readU32 bytes with fault | ⟨states, bytes⟩
  · rfl
  simp only [Slice.andThen_ok, Slice.readWord_u32]
  rcases Word.readU32 bytes with fault | ⟨classCount, bytes⟩
  · rfl
  simp only [Slice.andThen_ok, Slice.readMany_eq Slice.readWord_u16]
  rcases Word.readMany Word.readU16 257 bytes with fault | ⟨classes, bytes⟩
  · rfl
  rw [Slice.andThen_ok]
  dsimp only
  rcases ClassMap.ofList? classes with _ | classes <;> rfl

theorem readBySlices_eq (bytes : List UInt8) : readBySlices bytes = .ok (read bytes) := by
  rw [readBySlices, read]
  split
  · rfl
  · next hLong =>
    rw [Slice.take_of_le (by omega)]
    dsimp only
    split
    · rfl
    rw [readHeaderBySlices_eq]
    rcases readHeader (bytes.drop 8) with fault | ⟨⟨count, classCount, classes⟩, rest⟩
    · rfl
    dsimp only
    split
    · rfl
    rw [Slice.readMany_eq (readStateBySlices_eq classCount)]
    rcases Word.readMany (readState classCount) count rest with
      fault | ⟨states, _ | ⟨b, rest⟩⟩ <;> rfl

/-- **Reading by slices never goes out of range**, whatever the bytes, and comes to the same. -/
theorem decodeBySlices_eq (bytes : List UInt8) : decodeBySlices bytes = .ok (decode bytes) := by
  rw [decodeBySlices, decode, readBySlices_eq]
  rcases read bytes with fault | t <;> rfl

/-- Bytes that hold no tables are refused for their form. -/
theorem exists_fault {bytes : List UInt8} (hNone : ∀ t, read bytes ≠ .ok t) :
    ∃ fault, decode bytes = .error (.tableFormat fault) ∧
      decodeBySlices bytes = .ok (.error (.tableFormat fault)) := by
  cases hRead : read bytes with
  | ok t => exact absurd hRead (hNone t)
  | error fault =>
    have hDecode : decode bytes = .error (.tableFormat fault) := by simp only [decode, hRead]
    exact ⟨fault, hDecode, by rw [decodeBySlices_eq, hDecode]⟩

/-- **Cut off and padded tables are refused as such.** Of the bytes of an automaton, no part of the
beginning but the whole is accepted, and nothing that goes on behind them. The error is a fault of
the format and none of the tables, and no byte out of range is asked for on the way to it. -/
theorem decode_cut_or_padded (a : Automaton) :
    (∀ part, part <+: encode a → part ≠ encode a → ∃ fault,
      decode part = .error (.tableFormat fault) ∧
        decodeBySlices part = .ok (.error (.tableFormat fault))) ∧
      ∀ more, more ≠ [] → ∃ fault,
        decode (encode a ++ more) = .error (.tableFormat fault) ∧
          decodeBySlices (encode a ++ more) = .ok (.error (.tableFormat fault)) := by
  constructor
  · rintro part ⟨more, hBytes⟩ hPart
    refine exists_fault fun t hRead => hPart ?_
    rw [← hBytes, eq_nil_of_read_append hRead hBytes.symm, List.append_nil]
  · intro more hMore
    exact exists_fault fun t hRead => hMore (eq_nil_of_read_encode_append hRead)

/-- The cut falls into the row of the first state; a single byte is too much at the other end. -/
theorem decode_cut_or_padded_words :
    (encode Automaton.words).take 537 <+: encode Automaton.words ∧
      (encode Automaton.words).take 537 ≠ encode Automaton.words ∧ ([0] : List UInt8) ≠ [] ∧
      (∃ fault, decode ((encode Automaton.words).take 537) = .error (.tableFormat fault) ∧
        decodeBySlices ((encode Automaton.words).take 537) = .ok (.error (.tableFormat fault))) ∧
      ∃ fault, decode (encode Automaton.words ++ [0]) = .error (.tableFormat fault) ∧
        decodeBySlices (encode Automaton.words ++ [0]) = .ok (.error (.tableFormat fault)) := by
  have hPrefix := List.take_prefix 537 (encode Automaton.words)
  have hProper : (encode Automaton.words).take 537 ≠ encode Automaton.words := by decide +kernel
  have hMore : ([0] : List UInt8) ≠ [] := List.cons_ne_nil _ _
  obtain ⟨hCut, hPadded⟩ := decode_cut_or_padded Automaton.words
  exact ⟨hPrefix, hProper, hMore, hCut _ hPrefix hProper, hPadded _ hMore⟩

end Compact

end StreamLexer
