import StreamLexer.Automaton.Assembly

/-!
# The classes and rows of finished tables

Two bytes share a class of the finished tables if every drafted state goes to the same place on
both. A row has one target per class, the one of the class's first symbol. So the row of a drafted
state holds at the class of a symbol where the draft goes on that symbol.

## Main definitions

* `Assembly.representatives`: the first symbol of every class, in the order of the classes

## Main results

* `exists_mem_firstsBy`: every element is like the first of its group
* `Assembly.exists_representative`: the first symbol of a class is treated like the others
* `Assembly.exists_row_tablesOf`: the row of a draft goes where the draft goes
-/

namespace StreamLexer

theorem exists_mem_firstsBy {α β : Type} [BEq β] [LawfulBEq β] {f : α → β} {xs : List α} {x : α}
    (hx : x ∈ xs) : ∃ y ∈ firstsBy (fun y z => f y == f z) xs, f y = f x := by
  induction xs with
  | nil => cases hx
  | cons z zs ih =>
    rw [firstsBy]
    by_cases hFirst : f z = f x
    · exact ⟨z, List.mem_cons_self, hFirst⟩
    · have hTail : x ∈ zs := by
        rcases List.mem_cons.mp hx with rfl | hTail
        · exact absurd rfl hFirst
        · exact hTail
      obtain ⟨y, hy, hAlike⟩ := ih hTail
      refine ⟨y, List.mem_cons_of_mem z (List.mem_filter.mpr ⟨hy, ?_⟩), hAlike⟩
      simpa [hAlike] using hFirst

theorem firstsBy_sublist {α : Type} (alike : α → α → Bool) (xs : List α) :
    (firstsBy alike xs).Sublist xs := by
  induction xs with
  | nil => exact List.Sublist.slnil
  | cons x xs ih => exact ((List.filter_sublist).trans ih).cons_cons x

namespace Assembly

/-- The byte symbol of a number. -/
def byteOf (i : Fin 256) : Symbol := .byte (UInt8.ofNat i.val)

/-- The first bytes of the classes of bytes. -/
def firstBytes (drafts : List Draft) : List (Fin 256) :=
  firstsBy (fun b c => columnOf? drafts (byteOf b) == columnOf? drafts (byteOf c))
    (List.finRange 256)

/-- The first symbol of every class. -/
def representatives (drafts : List Draft) : List Symbol :=
  (firstBytes drafts).map byteOf ++ [.eof]

/-- A drafted state with one target per class. -/
def finished (drafts : List Draft) (id : StateId) : Draft → State
  | .terminal action => .terminal action
  | d@(.dispatch _) =>
    .dispatch ((representatives drafts).map fun x => (d.successor? id x).getD id).toArray

variable {drafts : List Draft}

theorem exists_byteOf (b : UInt8) : ∃ i : Fin 256, byteOf i = .byte b :=
  ⟨⟨b.toNat, b.toNat_lt⟩, by rw [byteOf, UInt8.ofNat_toNat]⟩

theorem exists_firstByte (drafts : List Draft) (i : Fin 256) :
    ∃ j ∈ firstBytes drafts, columnOf? drafts (byteOf j) = columnOf? drafts (byteOf i) :=
  exists_mem_firstsBy (f := fun j => columnOf? drafts (byteOf j)) (List.mem_finRange i)

theorem length_firstBytes_le (drafts : List Draft) : (firstBytes drafts).length ≤ 256 := by
  have h := (firstsBy_sublist (fun b c => columnOf? drafts (byteOf b) == columnOf? drafts (byteOf c))
    (List.finRange 256)).length_le
  rwa [List.length_finRange] at h

/-- The place of the first byte that is treated like the byte numbered `i`. -/
def placeOf (drafts : List Draft) (i : Fin 256) : Nat :=
  (firstBytes drafts).findIdx fun j => columnOf? drafts (byteOf j) == columnOf? drafts (byteOf i)

theorem placeOf_lt (drafts : List Draft) (i : Fin 256) :
    placeOf drafts i < (firstBytes drafts).length := by
  obtain ⟨j, hFirst, hAlike⟩ := exists_firstByte drafts i
  exact List.findIdx_lt_length_of_exists ⟨j, hFirst, beq_iff_eq.mpr hAlike⟩

theorem columnOf?_placeOf (drafts : List Draft) (i : Fin 256) :
    columnOf? drafts (byteOf ((firstBytes drafts).get ⟨placeOf drafts i, placeOf_lt drafts i⟩)) =
      columnOf? drafts (byteOf i) :=
  beq_iff_eq.mp (List.findIdx_getElem (w := placeOf_lt drafts i))

theorem toNat_classOf_tablesOf_byteOf (i : Fin 256) :
    ((tablesOf drafts).classOf (byteOf i)).toNat = placeOf drafts i := by
  have hIndex : (byteOf i).index.val = i.val := Symbol.index_byte_ofNat i.isLt
  have hClass : (tablesOf drafts).classOf (byteOf i) = UInt16.ofNat (placeOf drafts i) := by
    simp only [tablesOf, Tables.classOf, Fin.getElem_fin, Vector.getElem_ofFn, hIndex, i.isLt,
      dif_pos]
    rfl
  have hPlace := placeOf_lt drafts i
  have hLength := length_firstBytes_le drafts
  rw [hClass]
  exact UInt16.toNat_ofNat_of_lt' (by show _ < 65536; omega)

theorem toNat_classOf_tablesOf_eof :
    ((tablesOf drafts).classOf .eof).toNat = (firstBytes drafts).length := by
  have hClass : (tablesOf drafts).classOf .eof = UInt16.ofNat (firstBytes drafts).length := by
    simp only [tablesOf, Tables.classOf, Fin.getElem_fin, Vector.getElem_ofFn, Symbol.index_eof]
    rfl
  have hLength := length_firstBytes_le drafts
  rw [hClass]
  exact UInt16.toNat_ofNat_of_lt' (by show _ < 65536; omega)

theorem state_tablesOf (i : Nat) :
    (tablesOf drafts).states[i]? = drafts[i]?.map (finished drafts (UInt32.ofNat i)) := by
  have hRows : (tablesOf drafts).states =
      (drafts.zipIdx.map fun entry => finished drafts (UInt32.ofNat entry.2) entry.1).toArray := by
    simp only [tablesOf, Fin.getElem_fin, Vector.getElem_ofFn]
    apply congrArg List.toArray
    apply List.map_congr_left
    rintro ⟨d, j⟩ -
    cases d <;> rfl
  rw [hRows, List.getElem?_toArray, List.getElem?_map, List.getElem?_zipIdx, Option.map_map]
  cases drafts[i]? <;> simp

/-- **The first symbol of a class is treated like the others.** -/
theorem exists_representative (drafts : List Draft) (x : Symbol) :
    ∃ y, (representatives drafts)[((tablesOf drafts).classOf x).toNat]? = some y ∧
      columnOf? drafts y = columnOf? drafts x := by
  cases x with
  | eof =>
    refine ⟨.eof, ?_, rfl⟩
    rw [toNat_classOf_tablesOf_eof, representatives, List.getElem?_append_right (by simp),
      List.length_map, Nat.sub_self]
    rfl
  | byte b =>
    obtain ⟨i, hByte⟩ := exists_byteOf b
    have hPlace := placeOf_lt drafts i
    rw [← hByte]
    refine ⟨_, ?_, columnOf?_placeOf drafts i⟩
    rw [toNat_classOf_tablesOf_byteOf, representatives,
      List.getElem?_append_left (by rwa [List.length_map]), List.getElem?_map,
      List.getElem?_eq_getElem hPlace, Option.map_some, List.get_eq_getElem]

/-- Drafted states that are treated alike by two symbols go to the same place on both. -/
theorem successor?_of_columnOf? {x y : Symbol} {i : Nat} {d : Draft}
    (h : columnOf? drafts y = columnOf? drafts x) (hd : drafts[i]? = some d) :
    d.successor? (UInt32.ofNat i) y = d.successor? (UInt32.ofNat i) x := by
  have hAt : ∀ z, (columnOf? drafts z)[i]? = some (d.successor? (UInt32.ofNat i) z) := by
    intro z
    rw [columnOf?, List.getElem?_map, List.getElem?_zipIdx, hd]
    simp
  exact Option.some.inj ((hAt y).symm.trans (h ▸ hAt x))

/-- **The row of a draft goes where the draft goes**, if the draft goes anywhere. -/
theorem exists_row_tablesOf {i : Nat} {edges : Array Edge}
    (h : drafts[i]? = some (.dispatch edges)) :
    ∃ row, (tablesOf drafts).states[i]? = some (.dispatch row) ∧
      ∀ x target, (Draft.dispatch edges).successor? (UInt32.ofNat i) x = some target →
        row[((tablesOf drafts).classOf x).toNat]? = some target := by
  refine ⟨_, by rw [state_tablesOf, h]; rfl, fun x target hTarget => ?_⟩
  obtain ⟨y, hPlace, hAlike⟩ := exists_representative drafts x
  have hSame := successor?_of_columnOf? hAlike h
  rw [List.getElem?_toArray, List.getElem?_map, hPlace, Option.map_some, hSame, hTarget]
  rfl

theorem terminal_tablesOf_iff {i : Nat} {action : ActionId} :
    (tablesOf drafts).states[i]? = some (.terminal action) ↔
      drafts[i]? = some (.terminal action) := by
  rw [state_tablesOf]
  rcases drafts[i]? with _ | (edges | other) <;> simp [finished]

theorem size_tablesOf : (tablesOf drafts).states.size = drafts.length := by
  simp [tablesOf]

theorem exists_successor_of_gap? (h : gap? drafts = none) {i : Nat} {d : Draft}
    (hd : drafts[i]? = some d) (x : Symbol) :
    ∃ target, d.successor? (UInt32.ofNat i) x = some target := by
  rw [gap?, List.findSome?_eq_none_iff] at h
  have hColumn := h x (Symbol.mem_all x)
  rw [Option.map_eq_none_iff, List.find?_eq_none] at hColumn
  have hMem : (d.successor? (UInt32.ofNat i) x, i) ∈ (columnOf? drafts x).zipIdx := by
    rw [List.mem_zipIdx_iff_getElem?, columnOf?, List.getElem?_map, List.getElem?_zipIdx, hd]
    simp
  have hSome := hColumn _ hMem
  exact Option.ne_none_iff_exists'.mp (by simpa using hSome)

theorem gap?_eq_none (h : ∀ {i : Nat} {d : Draft}, drafts[i]? = some d →
    ∀ x, ∃ target, d.successor? (UInt32.ofNat i) x = some target) : gap? drafts = none := by
  rw [gap?, List.findSome?_eq_none_iff]
  intro x _
  rw [Option.map_eq_none_iff, List.find?_eq_none]
  rintro ⟨column, i⟩ hMem
  rw [List.mem_zipIdx_iff_getElem?, columnOf?, List.getElem?_map, List.getElem?_zipIdx] at hMem
  obtain ⟨⟨d, j⟩, hEntry, hColumn⟩ := Option.map_eq_some_iff.mp hMem
  obtain ⟨d, hDraft, hPair⟩ := Option.map_eq_some_iff.mp hEntry
  cases hPair
  obtain ⟨target, hTarget⟩ := h hDraft x
  have hColumn : d.successor? (UInt32.ofNat i) x = column := by simpa using hColumn
  rw [← hColumn, hTarget]
  simp

end Assembly

end StreamLexer
