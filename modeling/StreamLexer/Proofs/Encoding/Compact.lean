import StreamLexer.Encoding.Compact
import StreamLexer.Proofs.Automaton.WellFormed
import StreamLexer.Proofs.Encoding.Word

/-!
# What the compact form holds

The reader of the compact form takes each part off the front exactly as it is written, so a byte
string holds tables exactly if it is what the tables are written as, for some number in the place of
the class count that the rows agree with. The rows of an automaton all have one target per class.
Hence every automaton is read back from its bytes, and the bytes of an automaton are the only ones
it is read from, unless none of its states reads: then there is no row to agree with, and any number
may stand for the class count.

## Main definitions

* `Compact.encodeTables`: the bytes of tables, with a class count of choice

## Main results

* `Compact.read_eq_ok_iff`: the byte strings that hold tables
* `Compact.decode_eq_ok_iff`: the byte strings that hold an automaton
* `Compact.decode_encode`: every automaton is read back from its bytes
* `Compact.decode_eq_ok_iff_encode`: the bytes of an automaton are the only ones it is read from,
  but for the class count of an automaton that reads nothing
-/

namespace StreamLexer

theorem ClassMap.ofList?_eq_some_iff {l : List UInt16} {classes : ClassMap} :
    ClassMap.ofList? l = some classes ↔ l = classes.toList := by
  constructor
  · intro h
    rw [ofList?] at h
    split at h
    · cases h
      rfl
    · cases h
  · rintro rfl
    exact ofList?_toList classes

namespace Compact

/-- A state has one target for each of so many classes, or an action that is no mark. -/
def Fits (classes : Nat) : State → Prop
  | .dispatch row => row.size = classes
  | .terminal action => action ≠ dispatchTag

theorem inverts_readState (classes : Nat) :
    Word.Inverts (readState classes) (Fits classes) encodeState := by
  have hRow := Word.inverts_readU32.readMany classes
  intro bytes state rest
  constructor
  · intro h
    rw [readState] at h
    split at h
    · cases h
    · next tag bytes' hTag =>
      obtain ⟨-, rfl⟩ := (Word.inverts_readU32 _ _ _).mp hTag
      split at h
      · next hDispatch =>
        split at h
        · cases h
        · next row rest' hMany =>
          obtain ⟨rfl, rfl⟩ := Prod.mk.inj (Except.ok.inj h)
          obtain ⟨⟨hLength, -⟩, rfl⟩ := (hRow _ _ _).mp hMany
          subst hDispatch
          exact ⟨by simpa [Fits] using hLength, by simp only [encodeState, List.append_assoc]⟩
      · next hAction =>
        obtain ⟨rfl, rfl⟩ := Prod.mk.inj (Except.ok.inj h)
        exact ⟨hAction, rfl⟩
  · rintro ⟨hFits, rfl⟩
    cases state with
    | dispatch row =>
      have hMany : Word.readMany Word.readU32 classes (row.toList.flatMap Word.ofU32 ++ rest) =
          .ok (row.toList, rest) :=
        (hRow _ _ _).mpr ⟨⟨by simpa [Fits] using hFits, fun _ _ => trivial⟩, rfl⟩
      simp only [readState, encodeState, List.append_assoc, Word.readU32_ofU32, if_true, hMany,
        Array.toArray_toList]
    | terminal action =>
      have hAction : action ≠ dispatchTag := hFits
      simp only [readState, encodeState, Word.readU32_ofU32, hAction, if_false]

/-- The bytes of the numbers of states and of classes, and of the class map. -/
def encodeHeader (header : Nat × Nat × ClassMap) : List UInt8 :=
  Word.ofU32 (UInt32.ofNat header.1) ++ (Word.ofU32 (UInt32.ofNat header.2.1) ++
    header.2.2.toList.flatMap Word.ofU16)

theorem inverts_readHeader :
    Word.Inverts readHeader (fun header => header.1 < UInt32.size ∧ header.2.1 < UInt32.size)
      encodeHeader := by
  have hMap := Word.inverts_readU16.readMany 257
  rintro bytes ⟨count, classCount, classes⟩ rest
  constructor
  · intro h
    rw [readHeader] at h
    split at h
    · cases h
    · next states bytes₁ hStates =>
      split at h
      · cases h
      · next number bytes₂ hNumber =>
        split at h
        · cases h
        · next list rest' hList =>
          split at h
          · cases h
          · next classes' hClasses =>
            obtain ⟨hHeader, rfl⟩ := Prod.mk.inj (Except.ok.inj h)
            cases hHeader
            obtain rfl := ClassMap.ofList?_eq_some_iff.mp hClasses
            obtain ⟨-, rfl⟩ := (hMap _ _ _).mp hList
            obtain ⟨-, rfl⟩ := (Word.inverts_readU32 _ _ _).mp hNumber
            obtain ⟨-, rfl⟩ := (Word.inverts_readU32 _ _ _).mp hStates
            refine ⟨⟨states.toNat_lt, number.toNat_lt⟩, ?_⟩
            simp only [encodeHeader, UInt32.ofNat_toNat, List.append_assoc]
  · rintro ⟨⟨hCount, hClassCount⟩, rfl⟩
    have hList : Word.readMany Word.readU16 257 (classes.toList.flatMap Word.ofU16 ++ rest) =
        .ok (classes.toList, rest) :=
      (hMap _ _ _).mpr ⟨⟨by simp, fun _ _ => trivial⟩, rfl⟩
    simp only [readHeader, encodeHeader, List.append_assoc, Word.readU32_ofU32, hList,
      ClassMap.ofList?_toList, UInt32.toNat_ofNat_of_lt' hCount,
      UInt32.toNat_ofNat_of_lt' hClassCount]

/-- The bytes of tables, with a class count of choice. -/
def encodeTables (t : Tables) (classCount : Nat) : List UInt8 :=
  magic ++ (encodeHeader (t.states.size, classCount, t.classes) ++
    t.states.toList.flatMap encodeState)

theorem encode_eq_encodeTables (a : Automaton) :
    encode a = encodeTables a.toTables a.classCount := by
  simp only [encode, encodeTables, encodeHeader, Automaton.size, List.append_assoc]

theorem length_le_flatMap_encodeState (states : List State) :
    4 * states.length ≤ (states.flatMap encodeState).length := by
  induction states with
  | nil => exact Nat.le_refl _
  | cons state states ih =>
    have hState : 4 ≤ (encodeState state).length := by
      cases state <;> simp [encodeState, Word.ofU32]
    simp only [List.length_cons, List.flatMap_cons, List.length_append]
    omega

/-- **A byte string holds tables exactly if it is what they are written as**, with a class count
that all rows agree with. -/
theorem read_eq_ok_iff {bytes : List UInt8} {t : Tables} :
    read bytes = .ok t ↔ t.states.size < UInt32.size ∧
      ∃ classCount < UInt32.size, (∀ state ∈ t.states, Fits classCount state) ∧
        bytes = encodeTables t classCount := by
  constructor
  · intro h
    rw [read] at h
    split_ifs at h with hShort hMagic
    split at h
    · cases h
    · next count classCount classes bytes' hHeader =>
      obtain ⟨⟨hCount, hClassCount⟩, hBytes⟩ := (inverts_readHeader _ _ _).mp hHeader
      split_ifs at h with hRoom
      split at h
      · cases h
      · next states hStates =>
        cases h
        obtain ⟨⟨rfl, hFits⟩, rfl⟩ := ((inverts_readState classCount).readMany count _ _ _).mp hStates
        refine ⟨by simpa using hCount, classCount, hClassCount, by simpa using hFits, ?_⟩
        rw [← List.take_append_drop 8 bytes, Decidable.not_not.mp hMagic, hBytes]
        simp only [encodeTables, List.append_nil, List.size_toArray]
      · cases h
  · rintro ⟨hCount, classCount, hClassCount, hFits, rfl⟩
    have hMagic : magic.length = 8 := rfl
    have hRoom := length_le_flatMap_encodeState t.states.toList
    rw [Array.length_toList] at hRoom
    have hHeader : readHeader ((encodeTables t classCount).drop 8) =
        .ok ((t.states.size, classCount, t.classes), t.states.toList.flatMap encodeState) := by
      rw [encodeTables, List.drop_left' hMagic, inverts_readHeader]
      exact ⟨⟨hCount, hClassCount⟩, rfl⟩
    have hStates : Word.readMany (readState classCount) t.states.size
        (t.states.toList.flatMap encodeState) = .ok (t.states.toList, []) := by
      rw [(inverts_readState classCount).readMany]
      exact ⟨⟨Array.length_toList, by simpa using hFits⟩, (List.append_nil _).symm⟩
    have hLong : 16 ≤ (encodeTables t classCount).length := by
      simp only [encodeTables, encodeHeader, Word.ofU32, List.length_append, List.length_cons,
        List.length_nil, hMagic]
      omega
    have hMark : (encodeTables t classCount).take 8 = magic := List.take_left' hMagic
    rw [read, if_neg (Nat.not_lt_of_le hLong), if_neg (fun hOther => hOther hMark), hHeader]
    dsimp only
    rw [if_neg (by omega), hStates]

/-- Every state of an automaton fits its class count, and the only states that fit another number
are those that read nothing. -/
theorem fits_iff {a : Automaton} {state : State} (h : state ∈ a.states) (n : Nat) :
    Fits n state ↔ (state.isDispatch = true → n = a.classCount) := by
  obtain ⟨i, hi, rfl⟩ := Array.mem_iff_getElem.mp h
  have hState : a.states[i]? = some a.states[i] := Array.getElem?_eq_getElem hi
  cases hKind : a.states[i] with
  | dispatch row =>
    rw [hKind] at hState
    simp only [Fits, a.wellFormed.row_size hState, State.isDispatch, true_imp_iff, eq_comm]
  | terminal action =>
    rw [hKind] at hState
    constructor
    · intro _ hDispatch
      cases hDispatch
    · intro _
      exact a.wellFormed.action_ne hState

/-- **A byte string holds an automaton exactly if it is what the automaton is written as**, with a
class count that is its own if any of its states reads. -/
theorem decode_eq_ok_iff {bytes : List UInt8} {a : Automaton} :
    decode bytes = .ok a ↔ ∃ n < UInt32.size,
      (∀ state ∈ a.states, state.isDispatch = true → n = a.classCount) ∧
        bytes = encodeTables a.toTables n := by
  have hRead : decode bytes = .ok a ↔ read bytes = .ok a.toTables := by
    rw [decode]
    constructor
    · intro h
      split at h
      · cases h
      · next t hTables =>
        cases hOf : Automaton.ofTables t with
        | error cause =>
          rw [hOf] at h
          cases h
        | ok a' =>
          rw [hOf] at h
          cases h
          rw [hTables, Automaton.ofTables_eq_ok_iff.mp hOf]
    · intro h
      simp only [h, Automaton.ofTables_eq_ok_iff.mpr rfl]
      rfl
  rw [hRead, read_eq_ok_iff]
  constructor
  · rintro ⟨-, n, hn, hFits, hBytes⟩
    exact ⟨n, hn, fun state h => (fits_iff h n).mp (hFits state h), hBytes⟩
  · rintro ⟨n, hn, hCount, hBytes⟩
    exact ⟨a.wellFormed.size_lt, n, hn, fun state h => (fits_iff h n).mpr (hCount state h), hBytes⟩

theorem classCount_lt (a : Automaton) : a.classCount < UInt32.size :=
  Nat.lt_of_le_of_lt a.wellFormed.classCount_le (by decide)

/-- **Every automaton is read back from its bytes.** -/
theorem decode_encode (a : Automaton) : decode (encode a) = .ok a := by
  rw [decode_eq_ok_iff]
  refine ⟨a.classCount, classCount_lt a, fun _ _ _ => rfl, ?_⟩
  exact encode_eq_encodeTables a

/-- The class count takes the four bytes behind the mark and the number of states. -/
theorem encodeTables_eq (a : Automaton) (n : Nat) :
    encodeTables a.toTables n =
      (encode a).take 12 ++ Word.ofU32 (UInt32.ofNat n) ++ (encode a).drop 16 := by
  have hFront : (magic ++ Word.ofU32 (UInt32.ofNat a.states.size)).length = 12 := rfl
  have hCount : (Word.ofU32 (UInt32.ofNat a.classCount)).length = 4 := rfl
  have hSplit : encode a = (magic ++ Word.ofU32 (UInt32.ofNat a.states.size)) ++
      (Word.ofU32 (UInt32.ofNat a.classCount) ++
        (a.classes.toList.flatMap Word.ofU16 ++ a.states.toList.flatMap encodeState)) := by
    simp only [encode, Automaton.size, List.append_assoc]
  rw [show (16 : Nat) = 12 + 4 from rfl, ← List.drop_drop, hSplit, List.take_left' hFront,
    List.drop_left' hFront, List.drop_left' hCount]
  simp only [encodeTables, encodeHeader, List.append_assoc]

/-- **The bytes of an automaton are the only ones that it is read from**, except that any number may
stand for the class count of an automaton that reads nothing. -/
theorem decode_eq_ok_iff_encode {bytes : List UInt8} {a : Automaton} :
    decode bytes = .ok a ↔ bytes = encode a ∨
      (∀ state ∈ a.states, state.isDispatch = false) ∧
        ∃ n : UInt32, bytes = (encode a).take 12 ++ Word.ofU32 n ++ (encode a).drop 16 := by
  rw [decode_eq_ok_iff]
  constructor
  · rintro ⟨n, -, hCount, rfl⟩
    by_cases hReads : ∃ state ∈ a.states, state.isDispatch = true
    · obtain ⟨state, hMem, hDispatch⟩ := hReads
      rw [hCount state hMem hDispatch, encode_eq_encodeTables]
      exact .inl rfl
    · refine .inr ⟨fun state hMem => ?_, UInt32.ofNat n, encodeTables_eq a n⟩
      exact Bool.eq_false_iff.mpr fun hDispatch => hReads ⟨state, hMem, hDispatch⟩
  · rintro (rfl | ⟨hReads, n, rfl⟩)
    · exact ⟨a.classCount, classCount_lt a, fun _ _ _ => rfl, encode_eq_encodeTables a⟩
    · refine ⟨n.toNat, n.toNat_lt, fun state hMem hDispatch => ?_, ?_⟩
      · rw [hReads state hMem] at hDispatch
        cases hDispatch
      · rw [encodeTables_eq, UInt32.ofNat_toNat]

/-- The end of input has a class of its own, and the only state reports an action. -/
def mute : Automaton where
  classes := ⟨(List.replicate 256 0 ++ [1] : List UInt16).toArray, by decide +kernel⟩
  states := #[.terminal 0]
  sound := by
    rw [Tables.defect?, if_neg (by decide), if_neg (by decide +kernel),
      if_neg (by decide +kernel), Tables.sharedEofByte?_eq_none_of_notMem rfl (by decide +kernel)]
    decide +kernel

/-- The bytes of `mute`, but that they announce three classes in the place of two. -/
def miscounted : List UInt8 :=
  magic ++ Word.ofU32 1 ++ Word.ofU32 3 ++ (List.replicate 512 0 ++ Word.ofU16 1) ++ Word.ofU32 0

/-- An automaton that reads nothing is read from bytes that are not its own. -/
theorem decode_miscounted : decode miscounted = .ok mute ∧ encode mute ≠ miscounted := by
  constructor
  · rw [decode_eq_ok_iff]
    refine ⟨3, by decide, fun state hMem hDispatch => ?_, by decide +kernel⟩
    have hOnly : state ∈ #[State.terminal 0] := hMem
    obtain rfl : state = .terminal 0 := by simpa using hOnly
    cases hDispatch
  · decide +kernel

end Compact

end StreamLexer
