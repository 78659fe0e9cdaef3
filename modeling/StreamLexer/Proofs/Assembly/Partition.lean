import Mathlib.Data.Finset.Card
import Mathlib.Data.List.FinRange
import StreamLexer.Proofs.Assembly.Fidelity

/-!
# The classes of bytes are as coarse as they can be

The column of a symbol lists where each state that reads goes on it. Bytes with different columns
cannot share a class, and a finished automaton lets all others share one. Its classes are numbered
in the order in which their columns first occur among the bytes, and the end of input has the last
one for itself. So there is one class more than there are different columns of bytes.

## Main definitions

* `Automaton.column`: where the states that read go on a symbol
* `Automaton.columnCount`: the number of different columns among the first bytes
* `Automaton.Coarsest`: the classes are those of the columns, in the order of the bytes

## Main results

* `length_firstsBy`, `findIdx_firstsBy`: how many groups there are, and which place a group has
* `Assembly.columnOf?_eq_iff_of_build`: drafts and finished states tell the same symbols apart
* `Assembly.coarsest_of_build`: the classes of a finished automaton are as coarse as they can be
-/

namespace StreamLexer

/-! ### The firsts of groups -/

section Firsts

variable {α β : Type} [BEq β] [LawfulBEq β] {f : α → β} {xs : List α}

theorem firstsBy_append (alike : α → α → Bool) (xs ys : List α) :
    firstsBy alike (xs ++ ys) =
      firstsBy alike xs ++ (firstsBy alike ys).filter fun y => xs.all fun x => !alike x y := by
  induction xs with
  | nil => simp [firstsBy]
  | cons x xs ih =>
    rw [List.cons_append, firstsBy, ih, firstsBy, List.filter_append, List.filter_filter]
    simp only [List.cons_append, List.all_cons]

theorem nodup_map_firstsBy (f : α → β) (xs : List α) :
    ((firstsBy (fun x y => f x == f y) xs).map f).Nodup := by
  induction xs with
  | nil => exact List.nodup_nil
  | cons x xs ih =>
    rw [firstsBy, List.map_cons, List.nodup_cons]
    refine ⟨?_, ih.sublist (List.filter_sublist.map f)⟩
    intro hMem
    obtain ⟨y, hy, hAlike⟩ := List.mem_map.mp hMem
    have hUnlike := (List.mem_filter.mp hy).2
    simp [hAlike] at hUnlike

/-- **There are as many firsts as there are groups.** -/
theorem length_firstsBy [DecidableEq β] (f : α → β) (xs : List α) :
    (firstsBy (fun x y => f x == f y) xs).length = (xs.map f).toFinset.card := by
  have hGroups : ((firstsBy (fun x y => f x == f y) xs).map f).toFinset = (xs.map f).toFinset := by
    ext value
    rw [List.mem_toFinset, List.mem_toFinset, List.mem_map, List.mem_map]
    constructor
    · rintro ⟨x, hx, hValue⟩
      exact ⟨x, (firstsBy_sublist _ xs).subset hx, hValue⟩
    · rintro ⟨x, hx, hValue⟩
      obtain ⟨y, hy, hAlike⟩ := exists_mem_firstsBy (f := f) hx
      exact ⟨y, hy, hAlike.trans hValue⟩
  rw [← hGroups, List.toFinset_card_of_nodup (nodup_map_firstsBy f xs), List.length_map]

/-- **The place of a group** is the number of groups that occur before it. -/
theorem findIdx_firstsBy [DecidableEq β] {before after : List α} {x : α}
    (hNew : ∀ y ∈ before, f y ≠ f x) :
    (firstsBy (fun x y => f x == f y) (before ++ x :: after)).findIdx (fun y => f y == f x) =
      (before.map f).toFinset.card := by
  have hKept : (before.all fun y => !(f y == f x)) = true := by
    rw [List.all_eq_true]
    intro y hy
    simpa using hNew y hy
  have hNone : ¬ (firstsBy (fun x y => f x == f y) before).findIdx (fun y => f y == f x) <
      (firstsBy (fun x y => f x == f y) before).length := by
    rw [List.findIdx_lt_length]
    rintro ⟨y, hy, hAlike⟩
    exact hNew y ((firstsBy_sublist _ before).subset hy) (beq_iff_eq.mp hAlike)
  rw [firstsBy_append, firstsBy,
    List.filter_cons_of_pos (p := fun z => before.all fun y => !(f y == f z)) hKept,
    List.findIdx_append, if_neg hNone, List.findIdx_cons, BEq.rfl, cond_true, Nat.zero_add,
    length_firstsBy]

/-- Elements of different groups have different places. -/
theorem findIdx_firstsBy_inj {x y : α} (hx : x ∈ xs) (hy : y ∈ xs) :
    (firstsBy (fun x y => f x == f y) xs).findIdx (fun z => f z == f x) =
      (firstsBy (fun x y => f x == f y) xs).findIdx (fun z => f z == f y) ↔ f x = f y := by
  constructor
  · intro hPlace
    have hFound : ∀ {w}, w ∈ xs → ∃ z ∈ firstsBy (fun x y => f x == f y) xs,
        (f z == f w) = true := by
      intro w hw
      obtain ⟨z, hz, hAlike⟩ := exists_mem_firstsBy (f := f) hw
      exact ⟨z, hz, beq_iff_eq.mpr hAlike⟩
    have hFirst := List.findIdx_getElem (w := List.findIdx_lt_length_of_exists (hFound hx))
    have hFirst' := List.findIdx_getElem (w := List.findIdx_lt_length_of_exists (hFound hy))
    simp only [hPlace] at hFirst
    exact (beq_iff_eq.mp hFirst).symm.trans (beq_iff_eq.mp hFirst')
  · intro hAlike
    rw [hAlike]

/-- A group has the place of its first. -/
theorem findIdx_getElem_firstsBy {n : Nat}
    (hn : n < (firstsBy (fun x y => f x == f y) xs).length) :
    (firstsBy (fun x y => f x == f y) xs).findIdx
      (fun y => f y == f (firstsBy (fun x y => f x == f y) xs)[n]) = n := by
  rw [List.findIdx_eq hn]
  refine ⟨BEq.rfl, fun j hj => ?_⟩
  have hApart := List.pairwise_iff_getElem.mp (nodup_map_firstsBy f xs) j n
    (by simpa using Nat.lt_trans hj hn) (by simpa using hn) hj
  simpa using hApart

end Firsts

/-! ### Columns -/

namespace Automaton

/-- The states that read a symbol, in order. -/
def dispatchStates (a : Automaton) : List StateId :=
  ((List.range a.size).map UInt32.ofNat).filter fun s => (a.action? s).isNone

/-- Where every state that reads goes on a symbol, in order. -/
def column (a : Automaton) (x : Symbol) : List (Option StateId) :=
  a.dispatchStates.map fun s => a.step? s x

/-- The number of different columns among those of the first `n` bytes. -/
def columnCount (a : Automaton) (n : Nat) : Nat :=
  ((Symbol.bytes.take n).map a.column).toFinset.card

/-- The classes are those of the columns, numbered in the order of the bytes. -/
structure Coarsest (a : Automaton) : Prop where
  /-- Two bytes share a class exactly if every state that reads goes to the same state on both. -/
  classOf_eq_iff : ∀ b c, a.classOf (.byte b) = a.classOf (.byte c) ↔
    ∀ s row, a.state? s = some (.dispatch row) → a.step? s (.byte b) = a.step? s (.byte c)
  /-- No byte shares the class of the end of input. -/
  classOf_ne_eofClass : ∀ b, a.classOf (.byte b) ≠ a.eofClass
  /-- A class is numbered by the columns that occur before its first byte. -/
  classOf_first : ∀ b, (∀ c < b, a.classOf (.byte c) ≠ a.classOf (.byte b)) →
    (a.classOf (.byte b)).toNat = a.columnCount b.toNat
  /-- The end of input has the last class. -/
  eofClass_eq : a.eofClass.toNat + 1 = a.classCount
  /-- Every class is that of some symbol. -/
  exists_classOf : ∀ n < a.classCount, ∃ x, (a.classOf x).toNat = n
  classCount_eq : a.classCount = 1 + a.columnCount 256

variable {a : Automaton} {s : StateId} {x y : Symbol}

theorem mem_dispatchStates_iff :
    s ∈ a.dispatchStates ↔ ∃ row, a.state? s = some (.dispatch row) := by
  rw [dispatchStates, List.mem_filter, Option.isNone_iff_eq_none]
  constructor
  · rintro ⟨hRange, hAction⟩
    obtain ⟨n, hn, rfl⟩ := List.mem_map.mp hRange
    have hLt : n < a.size := List.mem_range.mp hn
    have hSmall : a.size < UInt32.size := a.wellFormed.size_lt
    apply state?_of_action?_eq_none _ hAction
    rwa [UInt32.toNat_ofNat_of_lt' (Nat.lt_trans hLt hSmall)]
  · rintro ⟨row, hState⟩
    refine ⟨List.mem_map.mpr ⟨s.toNat, List.mem_range.mpr (lt_size_of_state? hState), ?_⟩, ?_⟩
    · exact UInt32.ofNat_toNat
    · simp [Tables.action?, hState, State.action?]

theorem column_eq_iff :
    a.column x = a.column y ↔
      ∀ s row, a.state? s = some (.dispatch row) → a.step? s x = a.step? s y := by
  rw [column, column, List.map_inj_left]
  constructor
  · intro h s row hState
    exact h s (mem_dispatchStates_iff.mpr ⟨row, hState⟩)
  · intro h s hs
    obtain ⟨row, hState⟩ := mem_dispatchStates_iff.mp hs
    exact h s row hState

end Automaton

theorem Symbol.bytes_eq : Symbol.bytes = (List.finRange 256).map Assembly.byteOf := by
  rw [Symbol.bytes, ← List.map_coe_finRange_eq_range, List.map_map]
  rfl

namespace Assembly

variable {b : Assembly} {a : Automaton}

/-- **Drafts and finished states tell the same symbols apart.** -/
theorem columnOf?_eq_iff_of_build (h : b.build = .ok a) {x y : Symbol} :
    columnOf? b.completed.toList x = columnOf? b.completed.toList y ↔ a.column x = a.column y := by
  obtain ⟨-, -, hTables⟩ := build_eq_ok_iff.mp h
  rw [Automaton.column_eq_iff]
  constructor
  · intro hSame s row hState
    rw [hTables] at hState
    obtain ⟨edges, hDraft, -⟩ := exists_draft_of_row hState
    have hAlike := successor?_of_columnOf? hSame hDraft
    rw [Array.getElem?_toList] at hDraft
    obtain ⟨-, hStep⟩ := exists_step_of_build h hDraft
    obtain ⟨target, hTarget, hTaken⟩ := hStep x
    obtain ⟨target', hTarget', hTaken'⟩ := hStep y
    rw [UInt32.ofNat_toNat, hTarget, hTarget'] at hAlike
    rw [hTaken, hTaken', hAlike]
  · intro hSame
    apply List.map_congr_left
    rintro ⟨d, i⟩ hMem
    have hDraft : b.completed[i]? = some d := by
      simpa using List.mem_zipIdx_iff_getElem?.mp hMem
    cases d with
    | terminal action => rfl
    | dispatch edges =>
      have hSmall : b.completed.size < UInt32.size := size_of_build h ▸ a.wellFormed.size_lt
      have hNumber : (UInt32.ofNat i).toNat = i :=
        UInt32.toNat_ofNat_of_lt'
          (Nat.lt_trans (Array.getElem?_eq_some_iff.mp hDraft).1 hSmall)
      obtain ⟨⟨row, hState⟩, hStep⟩ :=
        exists_step_of_build (s := UInt32.ofNat i) h (by rwa [hNumber])
      obtain ⟨target, hTarget, hTaken⟩ := hStep x
      obtain ⟨target', hTarget', hTaken'⟩ := hStep y
      have hGoal := hSame _ row hState
      rw [hTaken, hTaken'] at hGoal
      exact hTarget.trans (hGoal.trans hTarget'.symm)

/-- The first byte of every column, in order. -/
def columnFirsts (a : Automaton) : List (Fin 256) :=
  firstsBy (fun i j => a.column (byteOf i) == a.column (byteOf j)) (List.finRange 256)

/-- The first byte of every class is that of a column of the finished automaton. -/
theorem firstBytes_of_build (h : b.build = .ok a) :
    firstBytes b.completed.toList = columnFirsts a := by
  have hAlike : (fun i j : Fin 256 => columnOf? b.completed.toList (byteOf i) ==
      columnOf? b.completed.toList (byteOf j)) =
      fun i j => a.column (byteOf i) == a.column (byteOf j) := by
    funext i j
    rw [Bool.eq_iff_iff, beq_iff_eq, beq_iff_eq]
    exact columnOf?_eq_iff_of_build h
  rw [firstBytes, hAlike, columnFirsts]

/-- The class of a byte is the place of its column among those of the first bytes. -/
theorem toNat_classOf_of_build (h : b.build = .ok a) (i : Fin 256) :
    (a.classOf (byteOf i)).toNat =
      (columnFirsts a).findIdx fun j => a.column (byteOf j) == a.column (byteOf i) := by
  obtain ⟨-, -, hTables⟩ := build_eq_ok_iff.mp h
  have hAlike : (fun j => columnOf? b.completed.toList (byteOf j) ==
      columnOf? b.completed.toList (byteOf i)) =
      fun j => a.column (byteOf j) == a.column (byteOf i) := by
    funext j
    rw [Bool.eq_iff_iff, beq_iff_eq, beq_iff_eq]
    exact columnOf?_eq_iff_of_build h
  rw [hTables, toNat_classOf_tablesOf_byteOf, placeOf, firstBytes_of_build h, hAlike]

theorem length_columnFirsts (a : Automaton) : (columnFirsts a).length = a.columnCount 256 := by
  rw [columnFirsts, length_firstsBy (fun i => a.column (byteOf i)), Automaton.columnCount,
    Symbol.bytes_eq, List.take_of_length_le (by simp), List.map_map]
  rfl

theorem toNat_eofClass_of_build (h : b.build = .ok a) :
    a.eofClass.toNat = a.columnCount 256 := by
  obtain ⟨-, -, hTables⟩ := build_eq_ok_iff.mp h
  rw [Tables.eofClass, hTables, toNat_classOf_tablesOf_eof, firstBytes_of_build h,
    length_columnFirsts]

theorem classCount_of_build (h : b.build = .ok a) : a.classCount = a.eofClass.toNat + 1 := by
  obtain ⟨-, -, hTables⟩ := build_eq_ok_iff.mp h
  rw [Tables.eofClass, hTables, toNat_classOf_tablesOf_eof, classCount_tablesOf, representatives,
    List.length_append, List.length_map, List.length_singleton]

/-- Bytes share a class exactly if they have the same column. -/
theorem classOf_eq_iff_of_build (h : b.build = .ok a) (i j : Fin 256) :
    a.classOf (byteOf i) = a.classOf (byteOf j) ↔ a.column (byteOf i) = a.column (byteOf j) := by
  rw [← UInt16.toNat_inj, toNat_classOf_of_build h, toNat_classOf_of_build h]
  exact findIdx_firstsBy_inj (f := fun i => a.column (byteOf i)) (List.mem_finRange i)
    (List.mem_finRange j)

/-- A class is numbered by the columns that occur before its first byte. -/
theorem toNat_classOf_first_of_build (h : b.build = .ok a) {i : Fin 256}
    (hFirst : ∀ j < i, a.column (byteOf j) ≠ a.column (byteOf i)) :
    (a.classOf (byteOf i)).toNat = a.columnCount i.val := by
  have hi : i.val < (List.finRange 256).length := by simp
  have hSplit : List.finRange 256 =
      (List.finRange 256).take i.val ++ i :: (List.finRange 256).drop (i.val + 1) := by
    conv_lhs => rw [← List.take_append_drop i.val (List.finRange 256)]
    rw [List.drop_eq_getElem_cons hi, List.getElem_finRange]
    rfl
  have hNew : ∀ j ∈ (List.finRange 256).take i.val,
      a.column (byteOf j) ≠ a.column (byteOf i) := by
    intro j hMem
    obtain ⟨k, hk, rfl⟩ := List.mem_take_iff_getElem.mp hMem
    apply hFirst
    rw [List.getElem_finRange, Fin.lt_def]
    exact Nat.lt_of_lt_of_le hk (Nat.min_le_left _ _)
  rw [toNat_classOf_of_build h, columnFirsts, hSplit,
    findIdx_firstsBy (f := fun i => a.column (byteOf i)) hNew, Automaton.columnCount,
    Symbol.bytes_eq, ← List.map_take, List.map_map]
  rfl

/-- Every class is that of some symbol. -/
theorem exists_classOf_of_build (h : b.build = .ok a) {n : Nat} (hn : n < a.classCount) :
    ∃ x, (a.classOf x).toNat = n := by
  obtain hLast | hByte : n = a.eofClass.toNat ∨ n < a.columnCount 256 := by
    rw [classCount_of_build h] at hn
    rw [← toNat_eofClass_of_build h]
    omega
  · exact ⟨.eof, hLast.symm⟩
  · rw [← length_columnFirsts] at hByte
    refine ⟨byteOf (columnFirsts a)[n], (toNat_classOf_of_build h _).trans ?_⟩
    exact findIdx_getElem_firstsBy (f := fun i => a.column (byteOf i)) hByte

/-- **The classes of a finished automaton are as coarse as they can be.** Whatever steps it was
assembled by, two bytes share a class exactly if every state that reads, that of a catch-all
included, goes to the same state on both. The classes are numbered in the order in which they first
occur among the bytes, without a gap, and the end of input has the last one for itself; so there is
one class more than there are different columns of bytes. -/
theorem coarsest_of_build {steps : List Step} {a : Automaton} (h : (ofSteps steps).build = .ok a) :
    a.Coarsest := by
  have hByte : ∀ c : UInt8, byteOf ⟨c.toNat, c.toNat_lt⟩ = .byte c := fun c => by
    rw [byteOf, UInt8.ofNat_toNat]
  have hAlike : ∀ c d : UInt8, a.classOf (.byte c) = a.classOf (.byte d) ↔
      a.column (.byte c) = a.column (.byte d) := fun c d => by
    rw [← hByte c, ← hByte d]
    exact classOf_eq_iff_of_build h _ _
  have hCount := classCount_of_build h
  have hEof := toNat_eofClass_of_build h
  refine
    { classOf_eq_iff := fun c d => (hAlike c d).trans Automaton.column_eq_iff
      classOf_ne_eofClass := a.wellFormed.byte_ne_eof
      classOf_first := fun c hFirst => ?_
      eofClass_eq := hCount.symm
      exists_classOf := fun n hn => ?_
      classCount_eq := by omega }
  · rw [← hByte c]
    apply toNat_classOf_first_of_build h
    intro j hj hSame
    have hNumber : (UInt8.ofNat j.val).toNat = j.val := UInt8.toNat_ofNat_of_lt' j.isLt
    rw [hByte c] at hSame
    refine hFirst (UInt8.ofNat j.val) ?_ ((hAlike _ _).mpr hSame)
    rwa [UInt8.lt_iff_toNat_lt, hNumber]
  · exact exists_classOf_of_build h hn

/-- A letter and a digit are told apart; the first byte has the first class. -/
theorem coarsest_of_build_letters :
    ∃ a, (ofSteps letters).build = .ok a ∧ a.Coarsest ∧
      a.classOf (.byte 97) ≠ a.classOf (.byte 48) ∧ (a.classOf (.byte 0)).toNat = 0 := by
  obtain ⟨a, hBuild⟩ := exists_build_letters
  have hCoarsest := coarsest_of_build hBuild
  obtain ⟨⟨row, hState⟩, hStep⟩ := @exists_step_of_steps a [] _ hBuild
  refine ⟨a, hBuild, hCoarsest, fun hSame => ?_, ?_⟩
  · obtain ⟨target, hLetter, hTarget⟩ := hStep (.byte 97)
    obtain ⟨target', hDigit, hTarget'⟩ := hStep (.byte 48)
    obtain rfl : 0 = target := Option.some.inj hTarget
    obtain rfl : 1 = target' := Option.some.inj hTarget'
    have hAlike := (hCoarsest.classOf_eq_iff 97 48).mp hSame _ row hState
    rw [hLetter, hDigit] at hAlike
    cases hAlike
  · exact hCoarsest.classOf_first 0 fun c hc => absurd hc UInt8.not_lt_zero

end Assembly

end StreamLexer
