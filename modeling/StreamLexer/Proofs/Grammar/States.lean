import Mathlib.Data.List.Find
import StreamLexer.Grammar.Sample
import StreamLexer.Proofs.Assembly.Fidelity
import StreamLexer.Proofs.Grammar.Phase

/-!
# The states of the sample grammar

The automaton of the sample grammar has one state for each phase of a token and one terminal for
each kind. Its edges, taken in the order in which they are added, lead where the phases say.

## Main definitions

* `Sample.Phase.edges`: the edges out of a phase, in order
* `Sample.places`, `Sample.number`: the places in the order of their states

## Main results

* `Sample.Phase.target?_edges`: the edges of a phase lead where the phase goes
* `Sample.exists_automaton`: the automaton exists, and its states are the places
-/

namespace StreamLexer.Sample

open TokenKind

/-- Where the first edge that covers a symbol leads. -/
def target? (edges : List (SymbolSet × Place)) (y : Symbol) : Option Place :=
  (edges.find? fun edge => edge.1.covers y).map Prod.snd

theorem target?_cons (edge : SymbolSet × Place) (edges : List (SymbolSet × Place)) (y : Symbol) :
    target? (edge :: edges) y = if edge.1.covers y then some edge.2 else target? edges y := by
  by_cases h : edge.1.covers y = true <;> simp [target?, h]

theorem target?_eof_cons (d : Place) (edges : List (SymbolSet × Place)) (b : UInt8) :
    target? ((.eof, d) :: edges) (.byte b) = target? edges (.byte b) := by
  rw [target?_cons]
  rfl

theorem target?_append (edges edges' : List (SymbolSet × Place)) (y : Symbol) :
    target? (edges ++ edges') y = (target? edges y).or (target? edges' y) := by
  simp only [target?, List.find?_append, Option.map_or]

namespace Phase

def letters (p : Phase) : List (SymbolSet × Place) :=
  [(.range 0x61 0x7A, .within p), (.range 0x41 0x5A, .within p), (.range 0x5F 0x5F, .within p)]

def digits (p : Phase) : SymbolSet × Place := (.range 0x30 0x39, .within p)

def on (symbols : String) (d : Place) : SymbolSet × Place := (.bytes (ascii symbols), d)

/-- A word goes on with letters and digits. -/
def wordEdges (k : TokenKind) : List (SymbolSet × Place) :=
  letters word ++ [digits word, (.all, .after k)]

/-- The operators of a single byte, in the order in which they are added. -/
def shorts : List TokenKind := all.filter fun k => k.operator?.any fun op => op.length = 1

def shortEdges : List (SymbolSet × Place) :=
  shorts.map fun k => (.bytes (k.operator?.getD []), .within (operator k))

/-- The edges out of a phase, in order. -/
def edges : Phase → List (SymbolSet × Place)
  | start =>
    (.eof, .after .eof) :: on "i" (.within i) :: (letters word ++
      digits int :: on " \t\r\n" (.within blank) :: on "/" (.within slash) ::
        (shortEdges ++ [(.all, .within junk)]))
  | i => on "f" (.within iF) :: wordEdges .ident
  | iF => wordEdges .if
  | word => wordEdges .ident
  | int => [digits int, (.all, .after .int)]
  | blank => [on " \t\r\n" (.within blank), (.all, .after .white)]
  | slash => [on "/" (.within line), on "*" (.within (block false)), (.all, .after .slash)]
  | line => [on "\n" (.after .lineComment), (.eof, .after .lineComment), (.all, .within line)]
  | block starred => (if starred then [on "/" (.within closed)] else []) ++
      [on "*" (.within (block true)), (.eof, .after .unmatched), (.all, .within (block false))]
  | closed => [(.all, .after .blockComment)]
  | operator k =>
    match k.long? with
    | some long =>
      [(.bytes ((long.operator?.getD []).drop 1), .within (operator long)), (.all, .after k)]
    | none => [(.all, .after k)]
  | junk => [(.all, .after .unmatched)]

/-- The phases behind the first one, in the order of their states. -/
def later : List Phase :=
  [i, iF, word, int, blank, slash, line, block false, block true, closed] ++
    shorts.flatMap (fun k => operator k :: k.long?.toList.map operator) ++ [junk]

/-! ### Where the edges lead -/

theorem target?_on_cons {symbols : String} {c : UInt8} (h : ascii symbols = [c]) (d : Place)
    (edges : List (SymbolSet × Place)) (y : Symbol) :
    target? (on symbols d :: edges) y = if y = .byte c then some d else target? edges y := by
  have hCovers : (on symbols d).1.covers y = true ↔ y = .byte c := by
    cases y <;> simp [on, h]
  simp only [target?_cons, hCovers]
  rfl

theorem target?_blanks_cons (d : Place) (edges : List (SymbolSet × Place)) (y : Symbol) :
    target? (on " \t\r\n" d :: edges) y =
      if y.isIn isBlank then some d else target? edges y := by
  have hCovers : (on " \t\r\n" d).1.covers y = true ↔ y.isIn isBlank = true := by
    cases y <;> simp [on, ascii, isBlank, or_assoc]
  simp only [target?_cons, hCovers]
  rfl

theorem target?_digits_cons (p : Phase) (edges : List (SymbolSet × Place)) (y : Symbol) :
    target? (digits p :: edges) y =
      if y.isIn Digits.isDigit then some (.within p) else target? edges y := by
  rw [target?_cons]
  cases y <;> rfl

theorem target?_letters_append (p : Phase) (edges : List (SymbolSet × Place)) (y : Symbol) :
    target? (letters p ++ edges) y =
      if y.isIn isLetter then some (.within p) else target? edges y := by
  cases y with
  | eof => rfl
  | byte b =>
    have hOne : (0x5F ≤ b && b ≤ 0x5F) = (b == 0x5F) := by
      rw [Bool.eq_iff_iff]
      simp only [Bool.and_eq_true, decide_eq_true_eq, beq_iff_eq]
      exact ⟨fun h => UInt8.le_antisymm h.2 h.1, fun h => h ▸ ⟨UInt8.le_refl b, UInt8.le_refl b⟩⟩
    have hSame : ∀ (l m r : Bool) (found : Option Place), (if l then some (.within p) else
        if m then some (.within p) else if r then some (.within p) else found) =
          if l || m || r then some (.within p) else found := by
      intro l m r found
      cases l <;> cases m <;> cases r <;> rfl
    simp only [letters, List.cons_append, List.nil_append, target?_cons, SymbolSet.covers_range, hOne,
      Symbol.isIn_byte, isLetter]
    exact hSame _ _ _ _

theorem exists_bytes_of_long? {k long : TokenKind} (h : k.long? = some long) :
    ∃ c d, k.operator? = some [c] ∧ long.operator? = some [c, d] := by
  cases k <;> cases h <;> exact ⟨_, _, rfl, rfl⟩

theorem target?_rest (d : Place) (y : Symbol) : target? [(.all, d)] y = some d := by
  rw [target?_cons, if_pos (by cases y <;> rfl)]

theorem target?_wordEdges (k : TokenKind) (y : Symbol) :
    target? (wordEdges k) y = some (wordOr k y) := by
  rw [wordEdges, target?_letters_append, target?_digits_cons, target?_rest, wordOr,
    apply_ite some]
  cases y with
  | eof => rfl
  | byte b =>
    simp only [Symbol.isIn_byte, isWordByte, Bool.or_eq_true, ite_or]
    rfl

theorem target?_shortEdges (b : UInt8) :
    target? shortEdges (.byte b) = (ofByte? b).map fun k => .within (operator k) := by
  have hCovers : ∀ k : TokenKind, k.operator?.any (fun op => op.length = 1) = true ∧
      (k.operator?.getD []).contains b = true ↔ k.operator? = some [b] := by
    intro k
    match k.operator? with
    | none => simp
    | some [] => simp
    | some [c] => simp [eq_comm]
    | some (c :: d :: tail) => simp
  rw [target?, shortEdges, shorts, List.find?_map, List.find?_filter, Option.map_map, ofByte?]
  exact congrArg _ (List.find?_congr fun k _ => decide_eq_decide.mpr (hCovers k))

theorem target?_block (starred : Bool) (y : Symbol) :
    target? (block starred).edges y = some ((block starred).next y) := by
  have hSlash : ascii "/" = [0x2F] := rfl
  have hStar : ascii "*" = [0x2A] := rfl
  cases y with
  | eof => cases starred <;> rfl
  | byte b =>
    have hOpen : target? (on "*" (.within (block true)) :: (.eof, .after .unmatched) ::
        [(.all, .within (block false))]) (.byte b) = some (.within (block (b = 0x2A))) := by
      rw [target?_on_cons hStar, target?_eof_cons, target?_rest]
      by_cases hByte : b = 0x2A <;> simp [hByte]
    cases starred with
    | false => simpa [edges, next] using hOpen
    | true =>
      rw [edges, if_pos rfl, List.singleton_append, target?_on_cons hSlash, hOpen, next]
      simp [apply_ite some]

theorem target?_operator (k : TokenKind) (y : Symbol) :
    target? (operator k).edges y = some ((operator k).next y) := by
  cases hLong : k.long? with
  | none =>
    have hEnds : (operator k).next y = .after k := by
      cases y <;> simp [next, extended?, hLong]
    simp only [edges, hLong, target?_rest, hEnds]
  | some long =>
    obtain ⟨c, d, hShort, hLongText⟩ := exists_bytes_of_long? hLong
    simp only [edges, hLong, hLongText]
    cases y with
    | eof => rfl
    | byte b =>
      have hNext : (operator k).next (.byte b) =
          if d = b then .within (operator long) else .after k := by
        by_cases hByte : d = b <;>
          simp [next, extended?, hLong, hShort, hLongText, Option.filter_some, hByte]
      have hCovers : (SymbolSet.bytes [d]).covers (.byte b) = true ↔ d = b := by
        simp [eq_comm]
      simp only [Option.getD_some, List.drop_succ_cons, List.drop_zero]
      rw [target?_cons, target?_rest, hNext, apply_ite some]
      simp only [hCovers]

/-- **The edges of a phase lead where the phase goes.** -/
theorem target?_edges (p : Phase) (y : Symbol) : target? p.edges y = some (p.next y) := by
  have hSlash : ascii "/" = [0x2F] := rfl
  have hStar : ascii "*" = [0x2A] := rfl
  cases p with
  | start =>
    cases y with
    | eof => rfl
    | byte b =>
      rw [edges, target?_eof_cons,
        target?_on_cons (show ascii "i" = [0x69] from rfl), target?_letters_append,
        target?_digits_cons, target?_blanks_cons, target?_on_cons hSlash, target?_append,
        target?_shortEdges, target?_rest, next, first]
      simp only [Symbol.byte.injEq, Symbol.isIn_byte]
      split_ifs
      · rfl
      · rfl
      · rfl
      · rfl
      · rfl
      · cases ofByte? b <;> rfl
  | i =>
    rw [edges, target?_on_cons (show ascii "f" = [0x66] from rfl), target?_wordEdges, next,
      apply_ite some]
  | iF => exact target?_wordEdges .if y
  | word => exact target?_wordEdges .ident y
  | int => rw [edges, target?_digits_cons, target?_rest, next, apply_ite some]
  | blank => rw [edges, target?_blanks_cons, target?_rest, next, apply_ite some]
  | slash =>
    rw [edges, target?_on_cons hSlash, target?_on_cons hStar, target?_rest, next, apply_ite some,
      apply_ite some]
  | line =>
    rw [edges, target?_on_cons (show ascii "\n" = [0x0A] from rfl), target?_cons,
      target?_rest, next, ite_or, apply_ite some, apply_ite some]
    cases y <;> rfl
  | block starred => exact target?_block starred y
  | closed => exact target?_rest _ y
  | operator k => exact target?_operator k y
  | junk => exact target?_rest _ y

end Phase

/-- The places in the order of their states. -/
def places : List Place := .within .start :: all.map .after ++ Phase.later.map .within

def number (d : Place) : StateId := UInt32.ofNat (places.idxOf d)

/-- The state of a place, as it is drafted. -/
def draft : Place → Draft
  | .within p => .dispatch (p.edges.map fun edge => ⟨edge.1, number edge.2⟩).toArray
  | .after k => .terminal k.action

theorem assembly_eq : assembly = ⟨(places.map draft).toArray, none, none⟩ := by decide +kernel

theorem mem_places_terminal (k : TokenKind) : .after k ∈ places := by
  simp [places, k.mem_all]

theorem next_mem_places {p : Phase} (h : .within p ∈ places) (y : Symbol) : p.next y ∈ places := by
  have hClosed : ∀ p ∈ Phase.start :: Phase.later, ∀ edge ∈ p.edges, edge.2 ∈ places := by
    decide +kernel
  have hPhase : p ∈ Phase.start :: Phase.later := by simpa [places] using h
  obtain ⟨edge, hFound, hNext⟩ := Option.map_eq_some_iff.mp (Phase.target?_edges p y)
  rw [← hNext]
  exact hClosed p hPhase edge (List.mem_of_find?_eq_some hFound)

theorem length_places_lt : places.length < UInt32.size := by decide +kernel

theorem getElem?_number {d : Place} (h : d ∈ places) : places[(number d).toNat]? = some d := by
  rw [number, UInt32.toNat_ofNat_of_lt']
  · exact List.getElem?_idxOf h
  · exact Nat.lt_trans (List.idxOf_lt_length_of_mem h) length_places_lt

/-! ### The automaton -/

theorem successor?_draft (p : Phase) (id : StateId) (y : Symbol) :
    (draft (.within p)).successor? id y = some (number (p.next y)) := by
  rw [draft, Draft.successor?, List.find?_toArray, List.find?_map, Option.map_map]
  obtain ⟨edge, hFound, hNext⟩ := Option.map_eq_some_iff.mp (Phase.target?_edges p y)
  have hDrafted : p.edges.find? ((fun edge : Edge => edge.symbols.covers y) ∘
      fun edge => ⟨edge.1, number edge.2⟩) = some edge := hFound
  rw [hDrafted, ← hNext]
  rfl

theorem next_eof (p : Phase) : ∃ k, p.next .eof = .after k := by
  cases p <;> exact ⟨_, rfl⟩

theorem completed_assembly : assembly.completed.toList = places.map draft := by
  rw [assembly_eq]
  rfl

theorem exists_place {i : Nat} {d : Draft} (h : (places.map draft)[i]? = some d) :
    ∃ place ∈ places, draft place = d := by
  rw [List.getElem?_map] at h
  obtain ⟨place, hPlace, hDraft⟩ := Option.map_eq_some_iff.mp h
  exact ⟨place, List.mem_of_getElem? hPlace, hDraft⟩

theorem getElem?_draft {d : Place} (h : d ∈ places) :
    (places.map draft)[(number d).toNat]? = some (draft d) := by
  rw [List.getElem?_map, getElem?_number h]
  rfl

theorem gap?_assembly : Assembly.gap? assembly.completed.toList = none := by
  rw [completed_assembly]
  apply Assembly.gap?_eq_none
  intro i d hDraft x
  obtain ⟨p | k, -, rfl⟩ := exists_place hDraft
  · exact ⟨_, successor?_draft p _ x⟩
  · exact ⟨_, rfl⟩

theorem admissible_assembly : Assembly.Admissible assembly.completed.toList := by
  rw [completed_assembly]
  have hPhase : ∀ {i : Nat} {edges}, (places.map draft)[i]? = some (.dispatch edges) →
      ∃ p, .within p ∈ places ∧ draft (.within p) = .dispatch edges := by
    intro i edges hDraft
    obtain ⟨p | k, hMem, hPlace⟩ := exists_place hDraft
    · exact ⟨p, hMem, hPlace⟩
    · cases hPlace
  refine
    { length_pos := by simp [places]
      length_lt := by simpa using length_places_lt
      action_ne := ?_
      target_lt := ?_
      eof_terminal := ?_ }
  · intro i action hDraft
    obtain ⟨p | k, -, hPlace⟩ := exists_place hDraft
    · cases hPlace
    · obtain rfl : k.action = action := Draft.terminal.inj hPlace
      cases k <;> decide
  · intro i edges x target hDraft hSuccessor
    obtain ⟨p, hMem, hPlace⟩ := hPhase hDraft
    rw [← hPlace, successor?_draft] at hSuccessor
    cases hSuccessor
    exact (List.getElem?_eq_some_iff.mp (getElem?_draft (next_mem_places hMem x))).1
  · intro i edges target hDraft hSuccessor
    obtain ⟨p, hMem, hPlace⟩ := hPhase hDraft
    obtain ⟨k, hNext⟩ := next_eof p
    rw [← hPlace, successor?_draft, hNext] at hSuccessor
    cases hSuccessor
    exact ⟨k.action, getElem?_draft (mem_places_terminal k)⟩

/-- An automaton has one state for each place, and goes from phase to phase. -/
structure Follows (a : Automaton) : Prop where
  terminal : ∀ k : TokenKind, a.state? (number (.after k)) = some (.terminal k.action)
  dispatch : ∀ {p : Phase}, .within p ∈ places →
    ∃ row, a.state? (number (.within p)) = some (.dispatch row)
  step : ∀ {p : Phase}, .within p ∈ places →
    ∀ y, a.step? (number (.within p)) y = some (number (p.next y))

/-- **The automaton of the grammar exists, and its states are the places.** -/
theorem exists_automaton : ∃ a, automaton = .ok a ∧ Follows a := by
  have hFault : assembly.fault? = none := by rw [assembly_eq]
  obtain ⟨a, hBuild⟩ :=
    Assembly.exists_build_iff.mpr ⟨hFault, gap?_assembly, admissible_assembly⟩
  have hDraft : ∀ {d}, d ∈ places → assembly.completed[(number d).toNat]? = some (draft d) := by
    intro d hMem
    rw [← Array.getElem?_toList, completed_assembly]
    exact getElem?_draft hMem
  refine ⟨a, hBuild, ?_, ?_, ?_⟩
  · intro k
    exact Assembly.terminal_of_build hBuild (hDraft (mem_places_terminal k))
  · intro p hMem
    exact (Assembly.exists_step_of_build hBuild (hDraft hMem)).1
  · intro p hMem y
    obtain ⟨target, hTarget, hStep⟩ := (Assembly.exists_step_of_build hBuild (hDraft hMem)).2 y
    have hSuccessor := successor?_draft p (number (.within p)) y
    rw [hStep, ← hTarget]
    exact hSuccessor

end StreamLexer.Sample
