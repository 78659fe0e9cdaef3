import StreamLexer.Program.Basic

/-!
# Units that keep the contract

A hand-written unit looks at the next symbol. In a dry window it asks for a refill, to go on at
itself; otherwise it picks from the symbol alone between passing control on and reporting an action,
and at the end of input it reports. Nothing says that control passes to units that exist.

A walk over such units runs dry only when all pending bytes are read, and then goes on over the
bytes that follow as if they had been there. If it ends with an action or at a missing unit, bytes
that follow change nothing. At the end of the stream it always ends in one of these two ways.

## Main definitions

* `ScanUnit.Keeps`, `Program.Keeps`: the contract
* `Program.Ends`: the two ways a walk ends that is not short of input

## Main results

* `Program.walk_text_append_pending`: a walk loses no byte
* `Program.Keeps.walk_append`: what bytes that follow change about a walk
* `Program.Keeps.ends_walk_atEnd`: how a walk ends at the end of the stream
-/

namespace StreamLexer

/-- A choice between passing control on and reporting, which reports at the end of input. -/
structure Choice.Decides (choice : Choice) : Prop where
  ne_refillAt : ∀ x point, choice.transfer x ≠ .refillAt point
  eof_ne_goto : ∀ next, choice.transfer .eof ≠ .goto next

namespace Choice.Decides

variable {choice : Choice}

theorem transfer_cases (h : choice.Decides) (x : Symbol) :
    (∃ next, choice.transfer x = .goto next) ∨ ∃ action, choice.transfer x = .report action := by
  cases hTransfer : choice.transfer x with
  | goto next => exact .inl ⟨next, rfl⟩
  | refillAt point => exact absurd hTransfer (h.ne_refillAt x point)
  | report action => exact .inr ⟨action, rfl⟩

theorem exists_report_eof (h : choice.Decides) :
    ∃ action, choice.transfer .eof = .report action := by
  rcases h.transfer_cases .eof with ⟨next, hNext⟩ | hReport
  · exact absurd hNext (h.eof_ne_goto next)
  · exact hReport

end Choice.Decides

/-- A choice by cases picks the transfer of a case, or the one for all other symbols. -/
theorem Choice.transfer_ofCases (cases : List (Nat × Nat × Transfer)) (otherwise : Transfer)
    (x : Symbol) :
    (ofCases cases otherwise).transfer x ∈ otherwise :: cases.map fun c => c.2.2 := by
  simp only [ofCases, transfer]
  split
  · next c hFind =>
    exact List.mem_cons_of_mem _ (List.mem_map_of_mem (List.mem_of_find?_eq_some hFind))
  · exact List.mem_cons_self

/-- A choice by cases decides if none of them asks for a refill and the end of input reports. -/
theorem Choice.decides_ofCases {cases : List (Nat × Nat × Transfer)} {otherwise : Transfer}
    (hTransfers : ∀ t ∈ otherwise :: cases.map fun c => c.2.2, ∀ point, t ≠ .refillAt point)
    (hEof : ∃ action, (ofCases cases otherwise).transfer .eof = .report action) :
    (ofCases cases otherwise).Decides where
  ne_refillAt x := hTransfers _ (transfer_ofCases cases otherwise x)
  eof_ne_goto next hNext := by
    obtain ⟨action, hReport⟩ := hEof
    rw [hReport] at hNext
    cases hNext

/-- The unit of number `own` keeps the contract: it looks at the next symbol, goes on at itself
after a refill, and decides by the symbol alone. -/
def ScanUnit.Keeps (own : UnitId) : ScanUnit → Prop
  | .report _ => False
  | .read dry choice => dry = own ∧ choice.Decides

namespace Program

/-- Every unit that control can reach keeps the contract. -/
def Keeps (p : Program) : Prop :=
  ∀ (u : UnitId) (unit : ScanUnit), p.units[u.toNat]? = some unit → unit.Keeps u

/-- **A walk loses no byte.** -/
theorem walk_text_append_pending (p : Program) (atEnd : Bool) (lexeme : List UInt8) (u : UnitId)
    (pending : List UInt8) :
    (p.walk atEnd lexeme u pending).lexeme.reverse ++ (p.walk atEnd lexeme u pending).pending =
      lexeme.reverse ++ pending := by
  fun_induction walk p atEnd lexeme u pending with
  | case7 lexeme u b rest _ choice _ next _ ih => simpa using ih
  | _ => rfl

/-- How a walk ends that is not short of input: with an action, or at a unit that is missing. -/
inductive Ends (p : Program) : Except Malformed (Outcome UnitId) → Prop
  | matched (action : ActionId) : Ends p (.ok (.matched action))
  | missing {u : UnitId} : p.size ≤ u.toNat → Ends p (.error (.missingUnit u p.size))

theorem size_le_of_units_eq_none {p : Program} {u : UnitId} (h : p.units[u.toNat]? = none) :
    p.size ≤ u.toNat :=
  Array.getElem?_eq_none_iff.mp h

namespace Keeps

variable {p : Program} {lexeme : List UInt8} {u : UnitId}

/-- Control stands at a missing unit, or at one that decides and comes back to itself. -/
theorem unit_cases (hp : p.Keeps) (u : UnitId) :
    p.units[u.toNat]? = none ∨
      ∃ choice, p.units[u.toNat]? = some (.read u choice) ∧ choice.Decides := by
  cases hUnit : p.units[u.toNat]? with
  | none => exact .inl rfl
  | some unit =>
    cases unit with
    | report action => exact (hp u _ hUnit).elim
    | read dry choice =>
      obtain ⟨rfl, hDecides⟩ := hp u _ hUnit
      exact .inr ⟨choice, rfl, hDecides⟩

/-- **What bytes that follow change about a walk**, and the end of the stream behind them. A walk
that runs dry has read all pending bytes, and goes on over the others where it stands. A walk that
ends stays as it is, and one that ends with an action has a byte before it. -/
theorem walk_append (hp : p.Keeps) (lexeme : List UInt8) (u : UnitId) (pending : List UInt8)
    (atEnd : Bool) (more : List UInt8) :
    (∃ q lexeme', p.walk false lexeme u pending = ⟨.ok (.refill q), lexeme', []⟩ ∧
      p.walk atEnd lexeme u (pending ++ more) = p.walk atEnd lexeme' q more) ∨
    ∃ result lexeme' left, p.Ends result ∧
      p.walk false lexeme u pending = ⟨result, lexeme', left⟩ ∧
      p.walk atEnd lexeme u (pending ++ more) = ⟨result, lexeme', left ++ more⟩ ∧
      (∀ action, result = .ok (.matched action) → left ≠ []) := by
  induction pending generalizing lexeme u with
  | nil =>
    rcases hp.unit_cases u with hUnit | ⟨choice, hUnit, hDecides⟩
    · refine .inr ⟨_, lexeme, [], .missing (size_le_of_units_eq_none hUnit), ?_, ?_, ?_⟩
      · simp [walk, hUnit]
      · cases more with
        | nil => cases atEnd <;> simp [walk, settle, hUnit]
        | cons b more => simp [walk, hUnit]
      · simp
    · exact .inl ⟨u, lexeme, by simp [walk, hUnit], rfl⟩
  | cons b rest ih =>
    rcases hp.unit_cases u with hUnit | ⟨choice, hUnit, hDecides⟩
    · exact .inr ⟨_, lexeme, b :: rest, .missing (size_le_of_units_eq_none hUnit),
        by simp [walk, hUnit], by simp [walk, hUnit], by simp⟩
    · rcases hDecides.transfer_cases (.byte b) with ⟨next, hNext⟩ | ⟨action, hReport⟩
      · simpa [walk, hUnit, hNext] using ih (b :: lexeme) next
      · exact .inr ⟨_, lexeme, b :: rest, .matched action, by simp [walk, hUnit, hReport],
          by simp [walk, hUnit, hReport], by simp⟩

/-- **How a walk ends at the end of the stream**: with an action, or at a missing unit. -/
theorem ends_walk_atEnd (hp : p.Keeps) (lexeme : List UInt8) (u : UnitId) (pending : List UInt8) :
    p.Ends (p.walk true lexeme u pending).result := by
  induction pending generalizing lexeme u with
  | nil =>
    rcases hp.unit_cases u with hUnit | ⟨choice, hUnit, hDecides⟩
    · simpa [walk, settle, hUnit] using Ends.missing (size_le_of_units_eq_none hUnit)
    · obtain ⟨action, hReport⟩ := hDecides.exists_report_eof
      simpa [walk, settle, hUnit, hReport] using Ends.matched action
  | cons b rest ih =>
    rcases hp.unit_cases u with hUnit | ⟨choice, hUnit, hDecides⟩
    · simpa [walk, hUnit] using Ends.missing (size_le_of_units_eq_none hUnit)
    · rcases hDecides.transfer_cases (.byte b) with ⟨next, hNext⟩ | ⟨action, hReport⟩
      · simpa [walk, hUnit, hNext] using ih (b :: lexeme) next
      · simpa [walk, hUnit, hReport] using Ends.matched action

end Keeps

end Program

end StreamLexer
