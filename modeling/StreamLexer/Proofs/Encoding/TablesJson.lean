import Mathlib.Data.List.TakeWhile
import StreamLexer.Encoding.TablesJson
import StreamLexer.Proofs.Encoding.Json

/-!
# Tables and their JSON form

The JSON form of tables is written without escapes, and its numbers are the digits of classes,
targets and actions. So the text is read back into the same value, and the value into the same
tables, whether or not these are sound. Reading a text that was written from tables therefore never
fails because of its form: it accepts the tables, or reports their first defect.

## Main results

* `TablesJson.parse?_encode`: the text of tables is read back into their value
* `TablesJson.toTables?_ofTables`: the value of tables is read back into them
* `TablesJson.decode_encode`: a text written from tables is decoded as the tables are checked
-/

namespace StreamLexer.TablesJson

open Json (Value Written)
open Digits (isDigit)

/-! ### The value of tables is read back from its text -/

theorem ofNat_ne_cons {first : UInt8} (h : isDigit first = false) (n : Nat) (rest : List UInt8) :
    Digits.ofNat n ≠ first :: rest := by
  intro hDigits
  have hFirst := Digits.isDigit_of_mem_ofNat n first (by simp [hDigits])
  rw [h] at hFirst
  cases hFirst

/-- The digits of a number have the form of a number. -/
theorem isNumber_ofNat (n : Nat) : Json.isNumber (Digits.ofNat n) = true := by
  rcases Nat.eq_zero_or_pos n with rfl | hPos
  · rfl
  · obtain ⟨first, rest, hDigits, hFirst⟩ := Digits.ofNat_eq_cons hPos
    have hAll := Digits.isDigit_of_mem_ofNat n
    rw [hDigits] at hAll ⊢
    obtain ⟨hDigit, hRest⟩ := List.forall_mem_cons.mp hAll
    have hSign : first ≠ 0x2D := by
      rintro rfl
      cases hDigit
    have hDrop : rest.dropWhile isDigit = [] := List.dropWhile_eq_nil_iff.mpr hRest
    simp [Json.isNumber, hSign, hFirst, hDigit, hDrop, Json.isFraction]

theorem written_ofNat (n : Nat) : Written (ofNat n) := by
  refine .number ?_ ?_
  · rw [Json.word?, if_neg (ofNat_ne_cons rfl n _), if_neg (ofNat_ne_cons rfl n _),
      if_neg (ofNat_ne_cons rfl n _), if_pos (isNumber_ofNat n)]
  · exact List.all_eq_true.mpr fun b hb =>
      Json.isWordByte_of_isDigit (Digits.isDigit_of_mem_ofNat n b hb)

/-- An array of numbers. -/
theorem written_ofNats {α : Type} (l : List α) (f : α → Nat) :
    Written (.array (l.map fun x => ofNat (f x))) :=
  .array (List.forall_mem_map.mpr fun _ _ => written_ofNat _)

theorem written_ofState (state : State) : Written (ofState state) := by
  cases state with
  | dispatch row =>
    exact .object (List.forall_mem_singleton.mpr rfl)
      (List.forall_mem_singleton.mpr (written_ofNats _ _))
  | terminal action =>
    exact .object (List.forall_mem_singleton.mpr rfl)
      (List.forall_mem_singleton.mpr (written_ofNat _))

theorem written_ofTables (t : Tables) : Written (ofTables t) := by
  have hStates : Written (.array (t.states.toList.map ofState)) :=
    .array (List.forall_mem_map.mpr fun state _ => written_ofState state)
  refine .object ?_ ?_
  · exact List.forall_mem_cons.mpr ⟨rfl, List.forall_mem_singleton.mpr rfl⟩
  · exact List.forall_mem_cons.mpr ⟨written_ofNats _ _, List.forall_mem_singleton.mpr hStates⟩

/-- **The text of tables is read back into their value.** -/
theorem parse?_encode (t : Tables) : Json.parse? (encode t) = some (ofTables t) :=
  Json.parse?_print (written_ofTables t)

/-! ### Tables are read back from their value -/

theorem mapM_map_eq_some {α β γ : Type} {read : β → Option γ} {write : α → β} {f : α → γ}
    {l : List α} (h : ∀ x ∈ l, read (write x) = some (f x)) :
    (l.map write).mapM read = some (l.map f) := by
  induction l with
  | nil => rfl
  | cons x l ih =>
    obtain ⟨hFirst, hRest⟩ := List.forall_mem_cons.mp h
    simp [List.mapM_cons, hFirst, ih hRest]

theorem toNat?_ofNat {bound n : Nat} (h : n < bound) : toNat? bound (ofNat n) = some n :=
  Digits.number?_ofNat h

/-- Numbers below a bound are read back from their array. -/
theorem toNats?_ofNats {α : Type} {bound : Nat} {l : List α} {f : α → Nat}
    (h : ∀ x, f x < bound) :
    toNats? bound (.array (l.map fun x => ofNat (f x))) = some (l.map f) :=
  mapM_map_eq_some fun x _ => toNat?_ofNat (h x)

/-- A state is read back from its value. -/
theorem toState?_ofState (state : State) : toState? (ofState state) = some state := by
  cases state with
  | dispatch row =>
    have hKey : Json.unescape? (ascii "dispatch") = some "dispatch" := rfl
    have hRow := toNats?_ofNats (l := row.toList) UInt32.toNat_lt
    simp [toState?, ofState, hKey, hRow, Function.comp_def]
  | terminal action =>
    have hKey : Json.unescape? (ascii "terminal") = some "terminal" := rfl
    have hAction := toNat?_ofNat action.toNat_lt
    simp [toState?, ofState, hKey, hAction]

/-- The two parts of tables are put together again. -/
theorem ofParts?_ofTables (t : Tables) :
    ofParts? (.array (t.classes.toList.map fun c => ofNat c.toNat))
      (.array (t.states.toList.map ofState)) = some t := by
  have hClasses := toNats?_ofNats (l := t.classes.toList) UInt16.toNat_lt
  have hStates := mapM_map_eq_some (l := t.states.toList) (f := id) fun s _ => toState?_ofState s
  simp [ofParts?, hClasses, hStates, Function.comp_def, ClassMap.ofList?_toList]

/-- **The value of tables is read back into them**, sound or not. -/
theorem toTables?_ofTables (t : Tables) : toTables? (ofTables t) = some t := by
  have hClasses : Json.unescape? (ascii "classes") = some "classes" := rfl
  have hStates : Json.unescape? (ascii "states") = some "states" := rfl
  simp [toTables?, ofTables, hClasses, hStates, only?, ofParts?_ofTables]

/-- **A text written from tables is read back into them.** -/
theorem read_encode (t : Tables) : read (encode t) = .ok t := by
  rw [read, parse?_encode, Option.bind_some, toTables?_ofTables]

/-- **Decoding a text written from tables checks the tables**, and does nothing else: tables without
a defect are accepted as they are, and those with one are refused for their first defect, never for
the form of the text. So every automaton is read back from its text. -/
theorem decode_encode_eq_ofTables (t : Tables) :
    decode (encode t) = (Automaton.ofTables t).mapError .malformed ∧
      (∀ fault, decode (encode t) ≠ .error (.tableFormat fault)) ∧
      ∀ a : Automaton, decode (encode a.toTables) = .ok a := by
  have hCheck (t : Tables) : decode (encode t) = (Automaton.ofTables t).mapError .malformed := by
    rw [decode, read_encode]
  refine ⟨hCheck t, fun fault => ?_, fun a => ?_⟩
  · rw [hCheck]
    cases Automaton.ofTables t <;> nofun
  · rw [hCheck, Automaton.ofTables_eq_ok_iff.mpr rfl]
    rfl

end StreamLexer.TablesJson
