import StreamLexer.Lexing
import StreamLexer.Proofs.Engine.Scan
import StreamLexer.Proofs.Input.Usage

/-!
# What a window keeps

A scan asks for a refill only where nothing waits to be read, and a refill first lets go of what
stands before the lexeme. So right after a refill a window holds the lexeme in progress and what was
delivered, and nothing else. From one refill to the next no byte comes in, whatever is scanned and
however many lexemes are started. So the windows of a stream are no larger than what it was opened
with, or than a lexeme in progress and a chunk behind it, however long the stream is.

## Main definitions

* `Engine.dryStops`: the buffers that a search has refilled, as they are before that
* `Engine.stages`: the buffers of a search, from its start to its end
* `Engine.lexDryStops`, `Engine.lexStages`: those of all searches of batch lexing

## Main results

* `Engine.limit_scan`: a scan neither takes in a byte nor lets go of one
* `ScanBuffer.KeepsLexeme`, `Engine.keepsLexeme_of_mem_dryStops`: what a window holds after a refill
* `Engine.refillsAt_of_mem_dryStops`: a search comes to the buffers that it has refilled
* `Engine.asked_nextMatch`, `Engine.asked_collect`: no refill is missing
* `Engine.limit_le_of_mem_stages`, `Engine.limit_le_of_mem_searches`: no more is held than at the
  start or right after a refill
* `window_bounded`: the size of the windows of a stream
-/

namespace StreamLexer

/-! ### The refills of a search -/

namespace Engine

/-- The buffers that are refilled when a search goes on from a resume point, in order, each as its
scan has left it. The last of them is the one whose refill fails, if one does. -/
def dryStopsFrom (e : Engine) (point : ResumePoint) (b : ScanBuffer) : List ScanBuffer :=
  let scan := e.run b.window point
  match scan.1 with
  | .ok (.refill point) =>
    if _notEnd : b.window.atEnd then []
    else
      let dry : ScanBuffer := { b with window := scan.2 }
      match _taken : dry.refill.1 with
      | .error _ => [dry]
      | .ok _ => dry :: e.dryStopsFrom point dry.refill.2
  | _ => []
termination_by b.toCome
decreasing_by
  have hScan : scan.2.atEnd = b.window.atEnd := atEnd_run e b.window _
  have hLt := ScanBuffer.toCome_refill_lt (b := dry) (by simpa [dry, hScan] using _notEnd) _taken
  simpa only [ScanBuffer.toCome, dry, hScan] using hLt

/-- The buffers that the search for the next match has refilled, each as it is before that. -/
def dryStops (e : Engine) (b : ScanBuffer) : List ScanBuffer := e.dryStopsFrom e.entry b.beginLexeme

/-- The buffers of the search for the next match, from its start to its end: each buffer that it has
refilled stands there before and after the refill. -/
def stages (e : Engine) (b : ScanBuffer) : List ScanBuffer :=
  b :: (e.dryStops b).flatMap (fun dry => [dry, dry.refill.2]) ++ [(e.nextMatch b).2]

/-- The buffers where the searches of batch lexing start, for so many searches at most. -/
def searches (e : Engine) : Nat → ScanBuffer → List ScanBuffer
  | 0, _ => []
  | fuel + 1, b =>
    b :: match e.nextMatch b with
      | (.error _, _) => []
      | (.ok m, b) => if m.span.isEmpty then [] else searches e fuel b

/-- The buffers that batch lexing has refilled, each as it is before that. -/
def lexDryStops (e : Engine) (b : ScanBuffer) : List ScanBuffer :=
  (e.searches (b.volume + 1) b).flatMap e.dryStops

/-- The buffers of batch lexing, from its start to its end. -/
def lexStages (e : Engine) (b : ScanBuffer) : List ScanBuffer :=
  (e.searches (b.volume + 1) b).flatMap e.stages

section DryStops

variable {e : Engine} {b b' : ScanBuffer} {point point' : ResumePoint} {w : Window}

theorem dryStopsFrom_of_matched {action : ActionId}
    (hRun : e.run b.window point = (.ok (.matched action), w)) : e.dryStopsFrom point b = [] := by
  rw [dryStopsFrom]
  simp only [hRun]

theorem dryStopsFrom_of_refill_error {error : LexError}
    (hRun : e.run b.window point = (.ok (.refill point'), w)) (hEnd : b.window.atEnd = false)
    (hRefill : ScanBuffer.refill { b with window := w } = (.error error, b')) :
    e.dryStopsFrom point b = [{ b with window := w }] := by
  obtain ⟨hResult, hWindow⟩ := Prod.ext_iff.mp hRun
  dsimp only at hResult hWindow
  rw [dryStopsFrom]
  simp only [hResult, hEnd, Bool.false_eq_true, dite_false]
  split
  · rw [hWindow]
  · next hOk =>
    rw [hWindow, hRefill] at hOk
    cases hOk

theorem dryStopsFrom_of_refill_ok {r : Option Refill}
    (hRun : e.run b.window point = (.ok (.refill point'), w)) (hEnd : b.window.atEnd = false)
    (hRefill : ScanBuffer.refill { b with window := w } = (.ok r, b')) :
    e.dryStopsFrom point b = { b with window := w } :: e.dryStopsFrom point' b' := by
  obtain ⟨hResult, hWindow⟩ := Prod.ext_iff.mp hRun
  dsimp only at hResult hWindow
  rw [dryStopsFrom]
  simp only [hResult, hEnd, Bool.false_eq_true, dite_false]
  split
  · next hError =>
    rw [hWindow, hRefill] at hError
    cases hError
  · rw [hWindow, hRefill]

end DryStops

end Engine

/-! ### After a refill -/

namespace ScanBuffer

/-- After its refill, also in vain, the window holds the lexeme in progress, which stays as it is,
and behind it what was delivered. -/
structure KeepsLexeme (b : ScanBuffer) : Prop where
  start_eq : b.refill.2.window.start = 0
  text_eq : b.refill.2.window.text = b.window.text
  limit_eq : b.refill.2.window.limit = b.window.text.length + b.source.supply.1.length

/-- **A window that has run dry keeps its lexeme alone.** -/
theorem keepsLexeme_of_dry {b : ScanBuffer} (hPending : b.window.pending = [])
    (hEnd : b.window.atEnd = false) : b.KeepsLexeme := by
  rcases b.refill_cases with ⟨hEnd', -⟩ | ⟨causes, source, -, hSupply, hRefill⟩ |
    ⟨chunk, source, -, hSupply, hRefill⟩
  · rw [hEnd] at hEnd'
    cases hEnd'
  · refine ⟨by rw [hRefill]; rfl, by rw [hRefill]; rfl, ?_⟩
    rw [hRefill, hSupply]
    simp [Window.limit, Window.cursor, Window.start, Window.text, afterAsking, Window.dropSpent,
      Delivery.length, hPending]
  · refine ⟨by rw [hRefill]; rfl, by rw [hRefill]; rfl, ?_⟩
    rw [hRefill, hSupply]
    simp [Window.limit, Window.cursor, Window.start, Window.text, afterAsking, receive,
      Window.append, Window.dropSpent, Delivery.length, hPending]

theorem asked_refill {b b' : ScanBuffer} {result : Except LexError (Option Refill)}
    (hEnd : b.window.atEnd = false) (h : b.refill = (result, b')) : b'.asked = b.asked + 1 := by
  rcases b.refill_cases with ⟨hEnd', -⟩ | ⟨causes, source, -, -, hRefill⟩ |
    ⟨chunk, source, -, -, hRefill⟩
  · rw [hEnd] at hEnd'
    cases hEnd'
  · cases hRefill.symm.trans h
    rfl
  · cases hRefill.symm.trans h
    rfl

end ScanBuffer

/-! ### Between refills -/

namespace Window

theorem limit_beginLexeme (w : Window) : w.beginLexeme.limit = w.limit := by
  simp only [limit, cursor, start, beginLexeme, List.length_append, List.length_nil]
  omega

end Window

namespace Engine

variable {a : Automaton} {entry s : StateId} {backend : Backend} {b : ScanBuffer}

/-- **A scan neither takes in a byte nor lets go of one**: it moves some from what waits to the
lexeme. -/
theorem limit_scan {w : Window} {outcome : Outcome StateId} {lexeme pending : List UInt8}
    (h : a.Walks w.atEnd w.lexeme s w.pending ⟨outcome, lexeme, pending⟩) :
    (w.reached lexeme pending).limit = w.limit := by
  have hBytes := congrArg List.length h.text_append_pending
  simp only [List.length_append, List.length_reverse] at hBytes
  simp only [Window.limit, Window.cursor, Window.start, Window.reached]
  omega

/-- **Every buffer that a search has refilled had run dry.** -/
theorem keepsLexeme_of_mem_dryStopsFrom (hs : s.toNat < a.size) {c : ScanBuffer}
    (hMem : c ∈ (inForm backend a entry).dryStopsFrom (backend.point s) b) : c.KeepsLexeme := by
  refine search_induction (motive := fun s b =>
    c ∈ (inForm backend a entry).dryStopsFrom (backend.point s) b → c.KeepsLexeme)
    backend entry ?matched ?failed ?refilled hs b hMem
  case matched =>
    intro s b action lexeme pending _ hRun hMem
    rw [dryStopsFrom_of_matched hRun] at hMem
    cases hMem
  case failed =>
    intro s b q lexeme error b' hEnd _ hRun hRefill hMem
    rw [dryStopsFrom_of_refill_error hRun hEnd hRefill] at hMem
    obtain rfl := List.mem_singleton.mp hMem
    exact ScanBuffer.keepsLexeme_of_dry rfl hEnd
  case refilled =>
    intro s b q lexeme r b' hEnd _ hRun hRefill ih hMem
    rw [dryStopsFrom_of_refill_ok hRun hEnd hRefill] at hMem
    rcases List.mem_cons.mp hMem with rfl | hLater
    · exact ScanBuffer.keepsLexeme_of_dry rfl hEnd
    · exact ih hLater

/-- A search that comes to the buffer `c` refills it, and fails as the refill does or goes on from
what it leaves. -/
def RefillsAt (e : Engine) (point : ResumePoint) (b c : ScanBuffer) : Prop :=
  (∀ error b', c.refill = (.error error, b') → e.matchFrom point b = (.error error, b')) ∧
    ∀ r b', c.refill = (.ok r, b') → ∃ point', e.matchFrom point b = e.matchFrom point' b'

/-- **Every buffer that a search has refilled is one that it came to.** -/
theorem refillsAt_of_mem_dryStopsFrom (hs : s.toNat < a.size) {c : ScanBuffer}
    (hMem : c ∈ (inForm backend a entry).dryStopsFrom (backend.point s) b) :
    (inForm backend a entry).RefillsAt (backend.point s) b c := by
  refine search_induction (motive := fun s b =>
    c ∈ (inForm backend a entry).dryStopsFrom (backend.point s) b →
      (inForm backend a entry).RefillsAt (backend.point s) b c)
    backend entry ?matched ?failed ?refilled hs b hMem
  case matched =>
    intro s b action lexeme pending _ hRun hMem
    rw [dryStopsFrom_of_matched hRun] at hMem
    cases hMem
  case failed =>
    intro s b q lexeme error b' hEnd _ hRun hRefill hMem
    rw [dryStopsFrom_of_refill_error hRun hEnd hRefill] at hMem
    obtain rfl := List.mem_singleton.mp hMem
    rw [RefillsAt, hRefill, matchFrom_of_refill_error hRun hEnd hRefill]
    refine ⟨fun error' b'' hError => ?_, fun r b'' hOk => ?_⟩
    · cases hError
      rfl
    · cases hOk
  case refilled =>
    intro s b q lexeme r b' hEnd _ hRun hRefill ih hMem
    rw [dryStopsFrom_of_refill_ok hRun hEnd hRefill] at hMem
    rw [RefillsAt, matchFrom_of_refill_ok hRun hEnd hRefill]
    rcases List.mem_cons.mp hMem with rfl | hLater
    · rw [hRefill]
      refine ⟨fun error b'' hError => ?_, fun r' b'' hOk => ?_⟩
      · cases hError
      · cases hOk
        exact ⟨backend.point q, rfl⟩
    · exact ih hLater

theorem keepsLexeme_of_mem_dryStops (hEntry : entry.toNat < a.size) {c : ScanBuffer}
    (hMem : c ∈ (inForm backend a entry).dryStops b) : c.KeepsLexeme := by
  rw [dryStops, entry_inForm] at hMem
  exact keepsLexeme_of_mem_dryStopsFrom hEntry hMem

theorem refillsAt_of_mem_dryStops (hEntry : entry.toNat < a.size) {c : ScanBuffer}
    (hMem : c ∈ (inForm backend a entry).dryStops b) :
    (inForm backend a entry).RefillsAt (inForm backend a entry).entry b.beginLexeme c := by
  rw [dryStops, entry_inForm] at hMem
  rw [entry_inForm]
  exact refillsAt_of_mem_dryStopsFrom hEntry hMem

/-- The source is asked once for every buffer that is refilled. -/
theorem asked_matchFrom (hs : s.toNat < a.size) (backend : Backend) (entry : StateId)
    (b : ScanBuffer) :
    ((inForm backend a entry).matchFrom (backend.point s) b).2.asked =
      b.asked + ((inForm backend a entry).dryStopsFrom (backend.point s) b).length := by
  refine search_induction (motive := fun s b =>
    ((inForm backend a entry).matchFrom (backend.point s) b).2.asked =
      b.asked + ((inForm backend a entry).dryStopsFrom (backend.point s) b).length)
    backend entry ?matched ?failed ?refilled hs b
  case matched =>
    intro s b action lexeme pending _ hRun
    rw [matchFrom_of_matched hRun, dryStopsFrom_of_matched hRun]
    rfl
  case failed =>
    intro s b q lexeme error b' hEnd _ hRun hRefill
    have hAsked : b'.asked = b.asked + 1 :=
      ScanBuffer.asked_refill (b := { b with window := b.window.reached lexeme [] }) hEnd hRefill
    rw [matchFrom_of_refill_error hRun hEnd hRefill, dryStopsFrom_of_refill_error hRun hEnd hRefill]
    exact hAsked
  case refilled =>
    intro s b q lexeme r b' hEnd _ hRun hRefill ih
    have hAsked : b'.asked = b.asked + 1 :=
      ScanBuffer.asked_refill (b := { b with window := b.window.reached lexeme [] }) hEnd hRefill
    rw [matchFrom_of_refill_ok hRun hEnd hRefill, dryStopsFrom_of_refill_ok hRun hEnd hRefill, ih,
      hAsked, List.length_cons]
    omega

/-- **No refill of a search is missing.** -/
theorem asked_nextMatch (hEntry : entry.toNat < a.size) (backend : Backend) (b : ScanBuffer) :
    ((inForm backend a entry).nextMatch b).2.asked =
      b.asked + ((inForm backend a entry).dryStops b).length := by
  rw [nextMatch, dryStops, entry_inForm]
  exact asked_matchFrom hEntry backend entry b.beginLexeme

/-! ### The size of the windows -/

section Size

variable {size : Nat}

/-- A search that goes on from a window of some size at most, and whose refills leave none that is
larger, has no larger window. -/
theorem limit_le_of_matchFrom (hs : s.toNat < a.size) (hStart : b.window.limit ≤ size)
    (hDry : ∀ c ∈ (inForm backend a entry).dryStopsFrom (backend.point s) b,
      c.refill.2.window.limit ≤ size) :
    (∀ c ∈ (inForm backend a entry).dryStopsFrom (backend.point s) b, c.window.limit ≤ size) ∧
      ((inForm backend a entry).matchFrom (backend.point s) b).2.window.limit ≤ size := by
  refine search_induction (motive := fun s b => b.window.limit ≤ size →
    (∀ c ∈ (inForm backend a entry).dryStopsFrom (backend.point s) b,
      c.refill.2.window.limit ≤ size) →
    (∀ c ∈ (inForm backend a entry).dryStopsFrom (backend.point s) b, c.window.limit ≤ size) ∧
      ((inForm backend a entry).matchFrom (backend.point s) b).2.window.limit ≤ size)
    backend entry ?matched ?failed ?refilled hs b hStart hDry
  -- only a refill can exceed the size
  case matched =>
    intro s b action lexeme pending hWalks hRun hStart _
    rw [matchFrom_of_matched hRun, dryStopsFrom_of_matched hRun]
    refine ⟨by simp, ?_⟩
    rw [Window.limit_beginLexeme, limit_scan hWalks]
    exact hStart
  case failed =>
    intro s b q lexeme error b' hEnd hWalks hRun hRefill hStart hDry
    rw [dryStopsFrom_of_refill_error hRun hEnd hRefill] at hDry ⊢
    rw [matchFrom_of_refill_error hRun hEnd hRefill]
    have hLast := hDry _ (List.mem_singleton_self _)
    rw [hRefill] at hLast
    refine ⟨List.forall_mem_singleton.mpr ?_, hLast⟩
    have hScanned : (b.window.reached lexeme []).limit = b.window.limit :=
      limit_scan (hEnd.symm ▸ hWalks)
    rw [hScanned]
    exact hStart
  case refilled =>
    intro s b q lexeme r b' hEnd hWalks hRun hRefill ih hStart hDry
    rw [dryStopsFrom_of_refill_ok hRun hEnd hRefill] at hDry ⊢
    rw [matchFrom_of_refill_ok hRun hEnd hRefill]
    obtain ⟨hFirst, hLater⟩ := List.forall_mem_cons.mp hDry
    rw [hRefill] at hFirst
    obtain ⟨hStops, hEnds⟩ := ih hFirst hLater
    refine ⟨List.forall_mem_cons.mpr ⟨?_, hStops⟩, hEnds⟩
    have hScanned : (b.window.reached lexeme []).limit = b.window.limit :=
      limit_scan (hEnd.symm ▸ hWalks)
    rw [hScanned]
    exact hStart

/-- **A search holds no more than its start or its refills.** -/
theorem limit_le_of_mem_stages (hEntry : entry.toNat < a.size) (hStart : b.window.limit ≤ size)
    (hDry : ∀ c ∈ (inForm backend a entry).dryStops b,
      c.window.text.length + c.source.supply.1.length ≤ size) :
    ∀ c ∈ (inForm backend a entry).stages b, c.window.limit ≤ size := by
  have hRefilled : ∀ c ∈ (inForm backend a entry).dryStops b, c.refill.2.window.limit ≤ size := by
    intro c hMem
    rw [(keepsLexeme_of_mem_dryStops hEntry hMem).limit_eq]
    exact hDry c hMem
  have hBegin : b.beginLexeme.window.limit ≤ size := by
    rw [ScanBuffer.beginLexeme, Window.limit_beginLexeme]
    exact hStart
  obtain ⟨hStops, hEnd⟩ :
      (∀ c ∈ (inForm backend a entry).dryStops b, c.window.limit ≤ size) ∧
        ((inForm backend a entry).nextMatch b).2.window.limit ≤ size := by
    rw [dryStops, entry_inForm] at hRefilled ⊢
    rw [nextMatch, entry_inForm]
    exact limit_le_of_matchFrom hEntry hBegin hRefilled
  intro c hMem
  simp only [stages, List.cons_append, List.mem_cons, List.mem_append, List.mem_flatMap,
    List.not_mem_nil, or_false] at hMem
  rcases hMem with rfl | ⟨dry, hDry, rfl | rfl⟩ | rfl
  · exact hStart
  · exact hStops c hDry
  · exact hRefilled dry hDry
  · exact hEnd

end Size

/-! ### Batch lexing -/

/-- Batch lexing ends with a search, or goes on from where it has left the buffer. -/
theorem collect_cases (e : Engine) (fuel : Nat) (found : List Match) (b : ScanBuffer) :
    ((e.collect (fuel + 1) found b).2 = (e.nextMatch b).2 ∧ e.searches (fuel + 1) b = [b]) ∨
      ∃ found', e.collect (fuel + 1) found b = e.collect fuel found' (e.nextMatch b).2 ∧
        e.searches (fuel + 1) b = b :: e.searches fuel (e.nextMatch b).2 := by
  rw [collect, searches]
  rcases e.nextMatch b with ⟨error | m, b'⟩
  · exact .inl ⟨rfl, rfl⟩
  · by_cases hEmpty : m.span.isEmpty
    · refine .inl ⟨?_, congrArg (b :: ·) (if_pos hEmpty)⟩
      dsimp only
      rw [if_pos hEmpty]
      split <;> rfl
    · exact .inr ⟨m :: found, if_neg hEmpty, congrArg (b :: ·) (if_neg hEmpty)⟩

theorem nextMatch_mem_stages (e : Engine) (b : ScanBuffer) : (e.nextMatch b).2 ∈ e.stages b :=
  List.mem_append_right _ (List.mem_singleton_self _)

/-- Batch lexing that has searched at all ends where the last of its searches does. -/
theorem collect_mem_stages (e : Engine) (fuel : Nat) (found : List Match) (b : ScanBuffer) :
    (e.collect (fuel + 1) found b).2 ∈ (e.searches (fuel + 1) b).flatMap e.stages := by
  induction fuel generalizing found b with
  | zero =>
    rcases e.collect_cases 0 found b with ⟨hEnd, hSearches⟩ | ⟨found', hLater, hSearches⟩
    · rw [hEnd, hSearches, List.flatMap_singleton]
      exact e.nextMatch_mem_stages b
    · rw [hLater, hSearches, List.flatMap_cons]
      exact List.mem_append_left _ (e.nextMatch_mem_stages b)
  | succ fuel ih =>
    rcases e.collect_cases (fuel + 1) found b with ⟨hEnd, hSearches⟩ | ⟨found', hLater, hSearches⟩
    · rw [hEnd, hSearches, List.flatMap_singleton]
      exact e.nextMatch_mem_stages b
    · rw [hLater, hSearches, List.flatMap_cons]
      exact List.mem_append_right _ (ih found' _)

/-- **No refill of batch lexing is missing.** -/
theorem asked_collect (hEntry : entry.toNat < a.size) (backend : Backend) (fuel : Nat)
    (found : List Match) (b : ScanBuffer) :
    ((inForm backend a entry).collect fuel found b).2.asked =
      b.asked + (((inForm backend a entry).searches fuel b).flatMap
        (inForm backend a entry).dryStops).length := by
  induction fuel generalizing found b with
  | zero => rfl
  | succ fuel ih =>
    have hFirst := asked_nextMatch hEntry backend b
    rcases (inForm backend a entry).collect_cases fuel found b with
      ⟨hEnd, hSearches⟩ | ⟨found', hLater, hSearches⟩
    · rw [hEnd, hSearches, List.flatMap_singleton, hFirst]
    · rw [hLater, hSearches, ih, hFirst, List.flatMap_cons, List.length_append]
      omega

/-- **Batch lexing holds no more than its start or its refills.** -/
theorem limit_le_of_mem_searches (hEntry : entry.toNat < a.size) {size fuel : Nat}
    (hStart : b.window.limit ≤ size)
    (hDry : ∀ c ∈ ((inForm backend a entry).searches fuel b).flatMap
        (inForm backend a entry).dryStops,
      c.window.text.length + c.source.supply.1.length ≤ size) :
    ∀ c ∈ ((inForm backend a entry).searches fuel b).flatMap (inForm backend a entry).stages,
      c.window.limit ≤ size := by
  induction fuel generalizing b with
  | zero =>
    intro c hMem
    cases hMem
  | succ fuel ih =>
    intro c hMem
    rcases (inForm backend a entry).collect_cases fuel [] b with
      ⟨-, hSearches⟩ | ⟨-, -, hSearches⟩
    · rw [hSearches, List.flatMap_singleton] at hDry hMem
      exact limit_le_of_mem_stages hEntry hStart hDry c hMem
    · rw [hSearches, List.flatMap_cons] at hDry hMem
      obtain ⟨hDryFirst, hDryLater⟩ := List.forall_mem_append.mp hDry
      have hFirst := limit_le_of_mem_stages hEntry hStart hDryFirst
      have hNext := hFirst _ (nextMatch_mem_stages _ b)
      rcases List.mem_append.mp hMem with hMem | hMem
      · exact hFirst c hMem
      · exact ih hNext hDryLater c hMem

end Engine

/-- **The window keeps the lexeme in progress and no more.** Let an engine run an automaton whose
entry exists, in either form. In each search for the next match, from any buffer, the source is
asked once for every dry stop, which the search comes to, refills, and goes on from; and right after
that refill the window starts with the lexeme in progress, which stays as it is, and holds what was
delivered behind it and nothing else. So while a stream is lexed that begins with some bytes and
goes on with any source, the window holds at most as many bytes as those, or as the longest lexeme
in progress at a refill with the longest delivery, however long the stream is. -/
theorem window_bounded {a : Automaton} {entry : StateId} (hEntry : entry.toNat < a.size)
    (backend : Backend) :
    ∃ e, Engine.ofAutomaton backend a entry = .ok e ∧
      (∀ b, (e.nextMatch b).2.asked = b.asked + (e.dryStops b).length ∧
        ∀ c ∈ e.dryStops b, e.RefillsAt e.entry b.beginLexeme c ∧ c.KeepsLexeme) ∧
      ∀ start source, let b := ScanBuffer.ofSource start source
        (e.lexAll b).2.asked = (e.lexDryStops b).length ∧ (e.lexAll b).2 ∈ e.lexStages b ∧
          ∀ lexeme chunk : Nat,
            (∀ c ∈ e.lexDryStops b,
              c.window.text.length ≤ lexeme ∧ c.source.supply.1.length ≤ chunk) →
            ∀ c ∈ e.lexStages b, c.window.limit ≤ max start.length (lexeme + chunk) := by
  refine ⟨_, Engine.ofAutomaton_of_lt hEntry backend, fun b => ?_, fun start source => ?_⟩
  · refine ⟨Engine.asked_nextMatch hEntry backend b, fun c hMem => ?_⟩
    exact ⟨Engine.refillsAt_of_mem_dryStops hEntry hMem,
      Engine.keepsLexeme_of_mem_dryStops hEntry hMem⟩
  · refine ⟨?_, Engine.collect_mem_stages _ _ _ _, fun lexeme chunk hDry => ?_⟩
    · rw [Engine.lexAll, Engine.asked_collect hEntry backend, Engine.lexDryStops]
      exact Nat.zero_add _
    · have hStart : (ScanBuffer.ofSource start source).window.limit = start.length := by
        simp [ScanBuffer.ofSource, Window.ofBytes, Window.limit, Window.cursor, Window.start]
      refine Engine.limit_le_of_mem_searches hEntry ?_ fun c hMem => ?_
      · rw [hStart]
        exact Nat.le_max_left ..
      · obtain ⟨hLexeme, hChunk⟩ := hDry c hMem
        exact Nat.le_trans (Nat.add_le_add hLexeme hChunk) (Nat.le_max_right ..)

/-- A letter is in progress when five bytes come in behind it, and again when the last byte of the
stream does. What stands before the second letter is let go of, so that the seven bytes of the
stream are never held together. -/
theorem window_bounded_words :
    (0 : StateId).toNat < Automaton.words.size ∧
      ∃ e, Engine.ofAutomaton .table Automaton.words 0 = .ok e ∧
        (∀ c ∈ e.lexDryStops (.ofSource [97] (.queue [.more [98, 32, 99, 32, 100], .last [32]])),
          c.KeepsLexeme) ∧
        ∀ c ∈ e.lexStages (.ofSource [97] (.queue [.more [98, 32, 99, 32, 100], .last [32]])),
          c.window.limit ≤ 6 := by
  have hEntry : (0 : StateId).toNat < Automaton.words.size := by decide
  obtain ⟨e, hEngine, hRefills, hStream⟩ := window_bounded hEntry .table
  obtain ⟨-, -, hBound⟩ :=
    hStream [97] (.queue [.more [98, 32, 99, 32, 100], .last [32]])
  refine ⟨hEntry, e, hEngine, ?_, ?_⟩
  · intro c hMem
    obtain ⟨b, -, hDry⟩ := List.mem_flatMap.mp hMem
    exact ((hRefills b).2 c hDry).2
  · refine hBound 1 5 ?_
    obtain ⟨-, rfl⟩ := Engine.ofAutomaton_eq_ok_iff.mp hEngine
    decide +kernel

end StreamLexer
