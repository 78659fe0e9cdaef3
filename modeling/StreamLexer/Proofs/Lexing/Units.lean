import StreamLexer.Lexing
import StreamLexer.Proofs.Engine.Scan
import StreamLexer.Proofs.Input.Delivery
import StreamLexer.Proofs.Program.Contract

/-!
# Hand-written units and the cuts of a stream

No tables stand behind hand-written units, so that control may come to a unit that is missing, also
in the middle of a lexeme. Still, if the units keep the contract, what remains of a stream fixes how
the search for the next match ends: as the walk over all that remains does, up to the end. So a
stream cut into chunks is lexed as if all its bytes were given up front, errors included.

## Main results

* `Engine.run_of_remains`: a scan ends as the walk over all that remains, or leaves its end open
* `Engine.matchFrom_of_keeps`: so does the search for a match, which comes to an end
* `Engine.exists_collect_of_keeps`: what remains of a stream fixes how batch lexing ends
* `lexAll_units`: a stream of chunks is lexed as one given up front
-/

namespace StreamLexer

namespace Engine

variable {p : Program} {b : ScanBuffer} {rest : List UInt8} {u : UnitId}

theorem run_direct (p : Program) (entry u : UnitId) (w : Window)
    {result : Except Malformed (Outcome UnitId)} {lexeme left : List UInt8}
    (h : p.walk w.atEnd w.lexeme u w.pending = ⟨result, lexeme, left⟩) :
    (direct p entry).run w (.unit u) =
      ((result.map (Outcome.map .unit)).mapError .malformed, w.reached lexeme left) := by
  simp only [run, Program.run, h]
  cases result <;> rfl

/-- **A scan ends as the walk over all that remains, or leaves its end open.** If it ends with an
action, the symbol behind the lexeme is known. If not, all bytes at hand are read, and the walk over
the others from where it stands ends as the walk over all of them. -/
theorem run_of_remains (hp : p.Keeps) (entry u : UnitId) (h : b.Remains rest) :
    (∃ result lexeme pending left, p.Ends result ∧
      p.walk true b.window.lexeme u rest = ⟨result, lexeme, left⟩ ∧
      (direct p entry).run b.window (.unit u) =
        ((result.map (Outcome.map .unit)).mapError .malformed, b.window.reached lexeme pending) ∧
      ScanBuffer.Remains { b with window := b.window.reached lexeme pending } left ∧
      ∀ action, result = .ok (.matched action) →
        (b.window.reached lexeme pending).isDry = false) ∨
    ∃ q lexeme bytes, b.window.atEnd = false ∧
      (direct p entry).run b.window (.unit u) =
        (.ok (.refill (.unit q)), b.window.reached lexeme []) ∧
      ScanBuffer.Remains { b with window := b.window.reached lexeme [] } bytes ∧
      p.walk true b.window.lexeme u rest = p.walk true lexeme q bytes := by
  cases h with
  | ended hEnd =>
    rcases hWalk : p.walk true b.window.lexeme u b.window.pending with ⟨result, lexeme, left⟩
    have hEnds := hp.ends_walk_atEnd b.window.lexeme u b.window.pending
    rw [hWalk] at hEnds
    refine .inl ⟨result, lexeme, left, left, hEnds, rfl, run_direct p entry u _ (hEnd ▸ hWalk),
      .ended (b := { b with window := b.window.reached lexeme left }) hEnd, fun _ _ => ?_⟩
    simp [Window.isDry, Window.reached, hEnd]
  | @ahead bytes hEnd hBytes =>
    rcases hp.walk_append b.window.lexeme u b.window.pending true bytes with
      ⟨q, lexeme, hDry, hMore⟩ | ⟨result, lexeme, left, hEnds, hWalk, hMore, hKnown⟩
    · exact .inr ⟨q, lexeme, bytes, hEnd, run_direct p entry u _ (hEnd ▸ hDry),
        .ahead (b := { b with window := b.window.reached lexeme [] }) hEnd hBytes, hMore⟩
    · refine .inl ⟨result, lexeme, left, left ++ bytes, hEnds, hMore,
        run_direct p entry u _ (hEnd ▸ hWalk),
        .ahead (b := { b with window := b.window.reached lexeme left }) hEnd hBytes, ?_⟩
      intro action hAction
      simpa [Window.isDry, Window.reached, hEnd] using hKnown action hAction

/-- **The search for a match ends as the walk over all that remains**: with a match, and with what
the walk leaves of the stream, or at the same missing unit. -/
theorem matchFrom_of_keeps (hp : p.Keeps) (entry u : UnitId) (h : b.Remains rest) :
    (∃ action lexeme left b',
      p.walk true b.window.lexeme u rest = ⟨.ok (.matched action), lexeme, left⟩ ∧
      (direct p entry).matchFrom (.unit u) b =
        (.ok ⟨action, ⟨b.window.lexemeStart, b.window.lexemeStart + lexeme.length⟩,
          lexeme.reverse⟩, b') ∧
      b'.Remains left ∧ b'.window.position = b.window.lexemeStart + lexeme.length ∧
      b'.isExhausted = left.isEmpty) ∨
    ∃ v lexeme left b', p.size ≤ v.toNat ∧
      p.walk true b.window.lexeme u rest = ⟨.error (.missingUnit v p.size), lexeme, left⟩ ∧
      (direct p entry).matchFrom (.unit u) b =
        (.error (.malformed (.missingUnit v p.size)), b') := by
  induction hn : b.toCome using Nat.strongRecOn generalizing u b rest with
  | ind n ih =>
    subst hn
    rcases run_of_remains hp entry u h with
      ⟨result, lexeme, pending, left, hEnds, hWalk, hRun, hLeft, hKnown⟩ |
      ⟨q, lexeme, bytes, hEnd, hRun, hBytes, hMore⟩
    · cases hEnds with
      | matched action =>
        have hMatch := matchFrom_of_matched hRun
        refine .inl ⟨action, lexeme, left, _, hWalk, hMatch, hLeft.beginLexeme,
          Window.position_beginLexeme _, ?_⟩
        exact hLeft.beginLexeme.isExhausted_eq (hKnown action rfl)
      | missing hMissing =>
        exact .inr ⟨_, lexeme, left, _, hMissing, hWalk, matchFrom_of_error hRun⟩
    · obtain ⟨r, b', hRefill, hRest⟩ := hBytes.refill
      have hLexeme : b'.window.lexeme = lexeme := ScanBuffer.lexeme_of_refill hRefill
      have hStart : b'.window.lexemeStart = b.window.lexemeStart :=
        (ScanBuffer.lexemeStart_of_refill hRefill).trans rfl
      have hNext := ih _ (ScanBuffer.toCome_refill_reached_lt hEnd hRefill) q hRest rfl
      rw [hLexeme, hStart] at hNext
      rw [matchFrom_of_refill_ok hRun hEnd hRefill, hMore]
      exact hNext

/-- **What remains of a stream fixes the next match**, or the missing unit that control comes to.
The match stands at the place of the buffer and takes its bytes off what remains. -/
theorem exists_nextMatch_of_keeps (hp : p.Keeps) (entry : UnitId) (offset : Nat)
    (rest : List UInt8) :
    (∃ m left, m.span = ⟨offset, offset + m.text.length⟩ ∧ m.text ++ left = rest ∧
      ∀ b : ScanBuffer, b.Remains rest → b.window.position = offset →
        ∃ b', (direct p entry).nextMatch b = (.ok m, b') ∧ b'.Remains left ∧
          b'.window.position = m.span.stop ∧ b'.isExhausted = left.isEmpty) ∨
    ∃ v : UnitId, p.size ≤ v.toNat ∧ ∀ b : ScanBuffer, b.Remains rest →
      ∃ b', (direct p entry).nextMatch b = (.error (.malformed (.missingUnit v p.size)), b') := by
  rcases hWalk : p.walk true [] entry rest with ⟨result, lexeme, left⟩
  have hEnds := hp.ends_walk_atEnd [] entry rest
  have hBytes := p.walk_text_append_pending true [] entry rest
  rw [hWalk] at hEnds hBytes
  cases hEnds with
  | matched action =>
    refine .inl ⟨⟨action, ⟨offset, offset + lexeme.length⟩, lexeme.reverse⟩, left, ?_, ?_, ?_⟩
    · simp
    · simpa using hBytes
    · rintro b hRest rfl
      rcases matchFrom_of_keeps hp entry entry hRest.beginLexeme with
        ⟨action', lexeme', left', b', hWalk', hMatch, hLeft⟩ |
        ⟨v, lexeme', left', b', -, hWalk', -⟩
      · cases hWalk.symm.trans hWalk'
        exact ⟨b', hMatch, hLeft⟩
      · cases hWalk.symm.trans hWalk'
  | @missing v hMissing =>
    refine .inr ⟨v, hMissing, fun b hRest => ?_⟩
    rcases matchFrom_of_keeps hp entry entry hRest.beginLexeme with
      ⟨action', lexeme', left', b', hWalk', -⟩ | ⟨v', lexeme', left', b', -, hWalk', hMatch⟩
    · cases hWalk.symm.trans hWalk'
    · cases hWalk.symm.trans hWalk'
      exact ⟨b', hMatch⟩

/-- **What remains of a stream fixes how batch lexing ends**: with matches, at a missing unit, or at
an empty match before the end of the stream. -/
theorem exists_collect_of_keeps (hp : p.Keeps) (entry : UnitId) (offset : Nat)
    (rest : List UInt8) (found : List Match) :
    ∃ verdict : Except LexError (List Match),
      ((∃ matches', verdict = .ok matches') ∨
        (∃ v : UnitId, p.size ≤ v.toNat ∧
          verdict = .error (.malformed (.missingUnit v p.size))) ∨
        ∃ place, verdict = .error (.malformed (.emptyMatch place))) ∧
      ∀ fuel (b : ScanBuffer), rest.length < fuel → b.Remains rest → b.window.position = offset →
        ((direct p entry).collect fuel found b).1 = verdict := by
  -- induction on the bytes that remain
  induction hn : rest.length using Nat.strongRecOn generalizing offset rest found with
  | ind n ih =>
    subst hn
    rcases exists_nextMatch_of_keeps hp entry offset rest with
      ⟨m, left, hSpan, hBytes, hNext⟩ | ⟨v, hMissing, hNext⟩
    · have hEmpty : m.span.isEmpty = m.text.isEmpty := by
        rw [Bool.eq_iff_iff]
        simp [hSpan, Span.isEmpty]
      by_cases hText : m.text = []
      · -- an empty match is the last one
        refine ⟨if left.isEmpty then .ok (m :: found).reverse
          else .error (.malformed (.emptyMatch m.span.stop)), ?_, ?_⟩
        · split
          · exact .inl ⟨_, rfl⟩
          · exact .inr (.inr ⟨_, rfl⟩)
        · intro fuel b hFuel hRest hPosition
          obtain ⟨fuel, rfl⟩ : ∃ k, fuel = k + 1 := ⟨fuel - 1, by omega⟩
          obtain ⟨b', hMatch, -, hStop, hExhausted⟩ := hNext b hRest hPosition
          rw [collect, hMatch]
          simp only [hEmpty, hText, hExhausted, hStop, List.isEmpty_nil, if_true]
          split <;> rfl
      · have hLess : left.length < rest.length := by
          rw [← hBytes, List.length_append]
          exact Nat.lt_add_of_pos_left (List.length_pos_iff.mpr hText)
        obtain ⟨verdict, hKind, hSame⟩ := ih _ hLess m.span.stop left (m :: found) rfl
        refine ⟨verdict, hKind, fun fuel b hFuel hRest hPosition => ?_⟩
        obtain ⟨fuel, rfl⟩ : ∃ k, fuel = k + 1 := ⟨fuel - 1, by omega⟩
        obtain ⟨b', hMatch, hLeft, hStop, -⟩ := hNext b hRest hPosition
        rw [collect, hMatch]
        dsimp only
        rw [if_neg (by simpa [hEmpty] using hText)]
        exact hSame fuel b' (by omega) hLeft hStop
    · refine ⟨_, .inr (.inl ⟨v, hMissing, rfl⟩), fun fuel b hFuel hRest _ => ?_⟩
      obtain ⟨fuel, rfl⟩ : ∃ k, fuel = k + 1 := ⟨fuel - 1, by omega⟩
      obtain ⟨b', hMatch⟩ := hNext b hRest
      rw [collect, hMatch]

end Engine

/-- **Units that keep the contract are not affected by the cuts of a stream.** Whatever a stream
begins with and however what follows is cut into chunks, batch lexing from any entry comes to an
end, and to the same one as if all bytes up to the first final chunk were given up front: the same
matches, the same missing unit, or the same empty match before the end of the stream. -/
theorem lexAll_units {units : List ScanUnit} (hUnits : units ≠ [])
    (hKeeps : ∀ (u : UnitId) (unit : ScanUnit), units[u.toNat]? = some unit → unit.Keeps u)
    (entry : UnitId) (first : List UInt8) (chunks : List Chunk) :
    ∃ p verdict, Program.ofUnits units = .ok p ∧
      ((Engine.ofProgram p entry).lexAll (.ofSource first (.queue chunks))).1 = verdict ∧
      ((Engine.ofProgram p entry).lexAll (.ofBytes (first ++ Chunk.delivered chunks))).1 =
        verdict ∧
      ((∃ found, verdict = .ok found) ∨
        (∃ u : UnitId, units.length ≤ u.toNat ∧
          verdict = .error (.malformed (.missingUnit u units.length))) ∨
        ∃ offset, verdict = .error (.malformed (.emptyMatch offset))) := by
  have hSize : 0 < units.toArray.size := by
    simpa using List.length_pos_iff.mpr hUnits
  have hProgram : Program.ofUnits units = .ok ⟨units.toArray, none, hSize⟩ := dif_pos hSize
  have hp : Program.Keeps ⟨units.toArray, none, hSize⟩ := fun u unit hUnit =>
    hKeeps u unit (by simpa using hUnit)
  have hCut := ScanBuffer.remains_ofSource (Source.delivers_queue chunks) first
  have hWhole := ScanBuffer.remains_ofBytes (first ++ Chunk.delivered chunks)
  obtain ⟨verdict, hKind, hSame⟩ :=
    Engine.exists_collect_of_keeps hp entry 0 (first ++ Chunk.delivered chunks) []
  exact ⟨_, verdict, hProgram, hSame _ _ (Nat.lt_succ_of_le hCut.length_le_volume) hCut rfl,
    hSame _ _ (Nat.lt_succ_of_le hWhole.length_le_volume) hWhole rfl, hKind⟩

/-- The units of a scanner for numbers; any other byte leads to a unit that is missing. -/
def digitUnits : List ScanUnit :=
  [.read 0 (.ofCases [(48, 57, .goto 1), (256, 256, .report 1)] (.goto 2)),
    .read 1 (.ofCases [(48, 57, .goto 1)] (.report 0))]

theorem keeps_digitUnits (u : UnitId) (unit : ScanUnit)
    (h : digitUnits[u.toNat]? = some unit) : unit.Keeps u := by
  obtain ⟨hLt, hUnit⟩ := List.getElem?_eq_some_iff.mp h
  have hCases : u.toNat = 0 ∨ u.toNat = 1 := by
    have hSize : u.toNat < 2 := hLt
    omega
  rcases hCases with hPlace | hPlace
  · obtain rfl : 0 = u := UInt32.toNat_inj.mp hPlace.symm
    subst hUnit
    exact ⟨rfl, Choice.decides_ofCases (by simp) ⟨1, rfl⟩⟩
  · obtain rfl : 1 = u := UInt32.toNat_inj.mp hPlace.symm
    subst hUnit
    exact ⟨rfl, Choice.decides_ofCases (by simp) ⟨0, rfl⟩⟩

/-- A scanner for numbers. -/
def digitEngine : Engine := .direct ⟨digitUnits.toArray, none, by decide⟩ 0

/-- A stream given up front, behind the number that it begins with. -/
def behindNumber : ScanBuffer :=
  ⟨⟨2, [50, 49], [], [32, 51], true, by decide⟩, .closed, 0, 0, []⟩

theorem nextMatch_number :
    digitEngine.nextMatch (.ofBytes [49, 50, 32, 51]) =
      (.ok ⟨0, ⟨0, 2⟩, [49, 50]⟩, behindNumber) :=
  Engine.matchFrom_of_matched (b := (ScanBuffer.ofBytes [49, 50, 32, 51]).beginLexeme)
    (w := ⟨0, [], [50, 49], [32, 51], true, by decide⟩) rfl

theorem nextMatch_behindNumber :
    digitEngine.nextMatch behindNumber = (.error (.malformed (.missingUnit 2 2)),
      { behindNumber with window := ⟨2, [50, 49], [32], [51], true, by decide⟩ }) :=
  Engine.matchFrom_of_error (b := behindNumber.beginLexeme) rfl

/-- A number, and the missing unit that the blank behind it leads to at the end of a chunk. -/
theorem lexAll_units_digits :
    digitUnits ≠ [] ∧
      (∀ (u : UnitId) (unit : ScanUnit), digitUnits[u.toNat]? = some unit → unit.Keeps u) ∧
      ∃ p, Program.ofUnits digitUnits = .ok p ∧
        ((Engine.ofProgram p 0).lexAll
          (.ofSource [49] (.queue [.more [50, 32], .last [51]]))).1 =
          .error (.malformed (.missingUnit 2 2)) := by
  have hUnits : digitUnits ≠ [] := by decide
  obtain ⟨p, verdict, hProgram, hCut, hWhole, -⟩ :=
    lexAll_units hUnits keeps_digitUnits 0 [49] [.more [50, 32], .last [51]]
  refine ⟨hUnits, keeps_digitUnits, p, hProgram, hCut.trans (hWhole.symm.trans ?_)⟩
  obtain rfl := Except.ok.inj hProgram
  show (digitEngine.collect (4 + 1) [] (.ofBytes [49, 50, 32, 51])).1 = _
  rw [Engine.collect, nextMatch_number]
  show (digitEngine.collect (3 + 1) _ behindNumber).1 = _
  rw [Engine.collect, nextMatch_behindNumber]

end StreamLexer
