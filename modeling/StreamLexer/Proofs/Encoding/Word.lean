import StreamLexer.Encoding.Word

/-!
# What readers of words accept

A reader inverts a writer if it takes off the front exactly what the writer puts there: whatever is
written reads back, with any bytes behind it, and nothing else is read. Readers of words invert their
writers, and the reader of a counted sequence does if the reader of its items does.

## Main definitions

* `Word.Inverts`: a reader takes off the front exactly what a writer puts there

## Main results

* `Word.inverts_readU16`, `Word.inverts_readU32`: the readers of words
* `Word.Inverts.readMany`: the reader of a counted sequence
-/

namespace StreamLexer.Word

/-- Reading takes an item off the front exactly if the item fits and its bytes stand there. -/
def Inverts {α : Type} (read : List UInt8 → Read α) (Fits : α → Prop) (write : α → List UInt8) :
    Prop :=
  ∀ bytes x rest, read bytes = .ok (x, rest) ↔ Fits x ∧ bytes = write x ++ rest

theorem byteAt_eq {n weight : Nat} {b : UInt8} (h : n / weight % 256 = b.toNat) :
    byteAt n weight = b := by
  rw [← UInt8.toNat_inj, toNat_byteAt, h]

theorem ofU16_ofNat (a b : UInt8) : ofU16 (UInt16.ofNat (a.toNat + 256 * b.toNat)) = [a, b] := by
  have ha := a.toNat_lt
  have hb := b.toNat_lt
  have hWord : (UInt16.ofNat (a.toNat + 256 * b.toNat)).toNat = a.toNat + 256 * b.toNat := by
    apply UInt16.toNat_ofNat_of_lt'
    show _ < 65536
    omega
  rw [ofU16, hWord, byteAt_eq (b := a) (by omega), byteAt_eq (b := b) (by omega)]

theorem ofU32_ofNat (a b c d : UInt8) :
    ofU32 (UInt32.ofNat (a.toNat + 256 * b.toNat + 65536 * c.toNat + 16777216 * d.toNat)) =
      [a, b, c, d] := by
  have ha := a.toNat_lt
  have hb := b.toNat_lt
  have hc := c.toNat_lt
  have hd := d.toNat_lt
  generalize hn : a.toNat + 256 * b.toNat + 65536 * c.toNat + 16777216 * d.toNat = n
  have hWord : (UInt32.ofNat n).toNat = n := by
    apply UInt32.toNat_ofNat_of_lt'
    show _ < 4294967296
    omega
  rw [ofU32, hWord, byteAt_eq (b := a) (by omega), byteAt_eq (b := b) (by omega),
    byteAt_eq (b := c) (by omega), byteAt_eq (b := d) (by omega)]

theorem inverts_readU16 : Inverts readU16 (fun _ => True) ofU16 := by
  intro bytes n rest
  rw [true_and]
  constructor
  · intro h
    match bytes, h with
    | a :: b :: rest', h =>
      obtain ⟨rfl, rfl⟩ := Prod.mk.inj (Except.ok.inj h)
      rw [ofU16_ofNat]
      rfl
  · rintro rfl
    exact readU16_ofU16 n rest

theorem inverts_readU32 : Inverts readU32 (fun _ => True) ofU32 := by
  intro bytes n rest
  rw [true_and]
  constructor
  · intro h
    match bytes, h with
    | a :: b :: c :: d :: rest', h =>
      obtain ⟨rfl, rfl⟩ := Prod.mk.inj (Except.ok.inj h)
      rw [ofU32_ofNat]
      rfl
  · rintro rfl
    exact readU32_ofU32 n rest

section ReadMany

variable {α : Type} {read : List UInt8 → Read α} {Fits : α → Prop} {write : α → List UInt8}

theorem readMany_succ_eq_ok_iff {n : Nat} {bytes rest : List UInt8} {xs : List α} :
    readMany read (n + 1) bytes = .ok (xs, rest) ↔
      ∃ x bytes' others, read bytes = .ok (x, bytes') ∧
        readMany read n bytes' = .ok (others, rest) ∧ xs = x :: others := by
  rw [readMany]
  constructor
  · intro h
    split at h
    · cases h
    · next x bytes' hRead =>
      split at h
      · cases h
      · next others rest' hMany =>
        obtain ⟨rfl, rfl⟩ := Prod.mk.inj (Except.ok.inj h)
        exact ⟨x, bytes', others, hRead, hMany, rfl⟩
  · rintro ⟨x, bytes', others, hRead, hMany, rfl⟩
    simp only [hRead, hMany]

/-- **A counted sequence is read off exactly what its items are written as**, one after the other. -/
theorem Inverts.readMany (h : Inverts read Fits write) (n : Nat) :
    Inverts (readMany read n) (fun xs => xs.length = n ∧ ∀ x ∈ xs, Fits x)
      (fun xs => xs.flatMap write) := by
  induction n with
  | zero =>
    intro bytes xs rest
    constructor
    · intro hRead
      obtain ⟨rfl, rfl⟩ := Prod.mk.inj (Except.ok.inj hRead)
      simp
    · rintro ⟨⟨hLength, -⟩, rfl⟩
      obtain rfl := List.eq_nil_of_length_eq_zero hLength
      rfl
  | succ n ih =>
    intro bytes xs rest
    rw [readMany_succ_eq_ok_iff]
    constructor
    · rintro ⟨x, bytes', others, hRead, hMany, rfl⟩
      obtain ⟨hFits, rfl⟩ := (h bytes x bytes').mp hRead
      obtain ⟨⟨rfl, hOthers⟩, rfl⟩ := (ih bytes' others rest).mp hMany
      refine ⟨⟨rfl, List.forall_mem_cons.mpr ⟨hFits, hOthers⟩⟩, ?_⟩
      simp only [List.flatMap_cons, List.append_assoc]
    · rintro ⟨⟨hLength, hFits⟩, rfl⟩
      obtain ⟨x, others, rfl⟩ := List.exists_cons_of_length_eq_add_one hLength
      obtain ⟨hFirst, hOthers⟩ := List.forall_mem_cons.mp hFits
      refine ⟨x, others.flatMap write ++ rest, others, ?_, ?_, rfl⟩
      · rw [h]
        exact ⟨hFirst, by simp only [List.flatMap_cons, List.append_assoc]⟩
      · rw [ih]
        exact ⟨⟨by simpa using hLength, hOthers⟩, rfl⟩

end ReadMany

end StreamLexer.Word
