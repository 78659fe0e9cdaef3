import StreamLexer.Text.Ascii

/-!
# Numbers and their digits

A number of one digit is that digit; any other is the digits of its tenth with the last digit behind
them. So the digits of a number are decimal digits, they stand for it, and the first of them is zero
only for zero itself.

## Main results

* `Digits.areDigits_ofNat`, `Digits.value_ofNat`: the digits of a number stand for it
* `Digits.number?_ofNat`: a number is read back from its digits
* `Digits.ofNat_eq_cons`: the first digit is not zero
-/

namespace StreamLexer.Digits

theorem isDigit_iff {b : UInt8} : isDigit b = true ↔ 48 ≤ b.toNat ∧ b.toNat ≤ 57 := by
  simp only [isDigit, Bool.and_eq_true, decide_eq_true_eq, UInt8.le_iff_toNat_le]
  rfl

/-- The byte of a digit. -/
def ofDigit (d : Nat) : UInt8 := UInt8.ofNat (48 + d)

theorem toNat_ofDigit {d : Nat} (h : d < 10) : (ofDigit d).toNat = 48 + d :=
  UInt8.toNat_ofNat_of_lt' (by
    show 48 + d < 256
    omega)

theorem isDigit_ofDigit {d : Nat} (h : d < 10) : isDigit (ofDigit d) = true := by
  rw [isDigit_iff, toNat_ofDigit h]
  omega

/-- A digit is the byte of a number below ten. -/
theorem exists_ofDigit {b : UInt8} (h : isDigit b = true) : ∃ d < 10, b = ofDigit d := by
  obtain ⟨hLow, hHigh⟩ := isDigit_iff.mp h
  refine ⟨b.toNat - 48, by omega, UInt8.toNat_inj.mp ?_⟩
  rw [toNat_ofDigit (by omega)]
  omega

theorem ofNat_of_lt {n : Nat} (h : n < 10) : ofNat n = [ofDigit n] := by
  rw [ofNat, Nat.toDigits_of_lt_base h, List.map_singleton, Nat.toNat_digitChar_of_lt_ten h,
    ofDigit]

theorem ofNat_of_le {n : Nat} (h : 10 ≤ n) : ofNat n = ofNat (n / 10) ++ [ofDigit (n % 10)] := by
  rw [ofNat, Nat.toDigits_of_base_le (by decide) h, List.map_append, List.map_singleton,
    Nat.toNat_digitChar_of_lt_ten (Nat.mod_lt n (by decide)), ofNat, ofDigit]

/-- A property of the digits of a number, by the number of them. -/
theorem ofNat_induction {motive : Nat → Prop} (short : ∀ n < 10, motive n)
    (long : ∀ n, 10 ≤ n → motive (n / 10) → motive n) (n : Nat) : motive n := by
  induction n using Nat.strongRecOn with
  | ind n ih =>
    by_cases h : n < 10
    · exact short n h
    · exact long n (by omega) (ih _ (by omega))

theorem value_append_singleton (digits : List UInt8) (b : UInt8) :
    value (digits ++ [b]) = value digits * 10 + (b.toNat - 48) := by
  simp [value]

/-- The digits of a number stand for it. -/
theorem value_ofNat (n : Nat) : value (ofNat n) = n := by
  induction n using ofNat_induction with
  | short n h => simp [ofNat_of_lt h, value, toNat_ofDigit h]
  | long n h ih =>
    rw [ofNat_of_le h, value_append_singleton, ih, toNat_ofDigit (Nat.mod_lt n (by decide))]
    omega

theorem isDigit_of_mem_ofNat (n : Nat) : ∀ b ∈ ofNat n, isDigit b = true := by
  induction n using ofNat_induction with
  | short n h =>
    rw [ofNat_of_lt h]
    simpa using isDigit_ofDigit h
  | long n h ih =>
    rw [ofNat_of_le h]
    simpa [or_imp, forall_and] using ⟨ih, isDigit_ofDigit (Nat.mod_lt n (by decide))⟩

/-- The first digit of a number is not zero, unless the number is. -/
theorem ofNat_eq_cons {n : Nat} (hPos : 0 < n) :
    ∃ first rest, ofNat n = first :: rest ∧ first ≠ 48 := by
  induction n using ofNat_induction with
  | short n h =>
    refine ⟨ofDigit n, [], ofNat_of_lt h, fun hZero => ?_⟩
    have hNat := toNat_ofDigit h
    rw [hZero] at hNat
    have : (48 : UInt8).toNat = 48 := rfl
    omega
  | long n h ih =>
    obtain ⟨first, rest, hDigits, hFirst⟩ := ih (by omega)
    exact ⟨first, rest ++ [ofDigit (n % 10)], by rw [ofNat_of_le h, hDigits]; rfl, hFirst⟩

theorem ofNat_ne_nil (n : Nat) : ofNat n ≠ [] := by
  simp [ofNat]

theorem areDigits_ofNat (n : Nat) : areDigits (ofNat n) = true := by
  simpa [areDigits, ofNat_ne_nil] using isDigit_of_mem_ofNat n

/-- **A number is read back from its digits.** -/
theorem number?_ofNat {bound n : Nat} (h : n < bound) : number? bound (ofNat n) = some n := by
  rw [number?, if_pos (areDigits_ofNat n), value_ofNat, if_pos h]

end StreamLexer.Digits
