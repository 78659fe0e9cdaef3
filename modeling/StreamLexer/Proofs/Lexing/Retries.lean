import StreamLexer.Proofs.Input.Usage
import StreamLexer.Proofs.Lexing.Causality

/-!
# Failing sources and retries

A refill that fails lets go of the bytes before the lexeme and changes nothing else. So whoever
refills again until a refill succeeds, and goes on at the same resume point, finds what is found
over the same script without its failures. A search for the next match does not try again; the
buffer that it leaves where a refill fails still holds all that it has read.

## Main definitions

* `Window.Agrees`, `ScanBuffer.Agrees`: equal from the lexeme on
* `ScanBuffer.Refilled`, `Engine.Drives`: refilling until it succeeds, and scanning that way
* `ScanBuffer.mended`, `Source.Mends`, `ScanBuffer.Mends`: without the failures of a script

## Main results

* `ScanBuffer.agrees_of_refill_error`: what a refill that fails leaves as it is
* `ScanBuffer.Mends.refill`: a refill with the failures, and one without them
* `Engine.Drives.mended`, `Engine.exists_drives`: failures are passed over
* `Engine.nextMatch_error`: what a search that fails leaves
* `retries_transparent`: failures change nothing for a driver that tries again
-/

namespace StreamLexer

/-! ### Windows and buffers that agree from the lexeme on -/

/-- The windows show the same from the lexeme on. What is at hand before it may differ. -/
structure Window.Agrees (w v : Window) : Prop where
  lexemeStart_eq : w.lexemeStart = v.lexemeStart
  lexeme_eq : w.lexeme = v.lexeme
  pending_eq : w.pending = v.pending
  atEnd_eq : w.atEnd = v.atEnd

namespace Window.Agrees

variable {w v : Window}

theorem reached (h : w.Agrees v) (lexeme pending : List UInt8) :
    (w.reached lexeme pending).Agrees (v.reached lexeme pending) :=
  ⟨h.lexemeStart_eq, rfl, rfl, h.atEnd_eq⟩

theorem dropSpent (h : w.Agrees v) : w.dropSpent.Agrees v :=
  ⟨h.lexemeStart_eq, h.lexeme_eq, h.pending_eq, h.atEnd_eq⟩

theorem text_eq (h : w.Agrees v) : w.text = v.text := by
  rw [Window.text, h.lexeme_eq, Window.text]

theorem position_eq (h : w.Agrees v) : w.position = v.position := by
  rw [Window.position, h.lexemeStart_eq, h.lexeme_eq, Window.position]

theorem span_eq (h : w.Agrees v) : w.span = v.span := by
  rw [Window.span, h.lexemeStart_eq, h.position_eq, Window.span]

end Window.Agrees

/-- The windows of the buffers agree, and as many deliveries were taken in. -/
structure ScanBuffer.Agrees (b c : ScanBuffer) : Prop where
  window : b.window.Agrees c.window
  refills_eq : b.refills = c.refills

namespace ScanBuffer

variable {b b' c c' : ScanBuffer}

theorem Agrees.refl (b : ScanBuffer) : b.Agrees b := ⟨⟨rfl, rfl, rfl, rfl⟩, rfl⟩

theorem Agrees.afterAsking (h : b.Agrees c) (source : Source) : (b.afterAsking source).Agrees c :=
  ⟨h.window.dropSpent, h.refills_eq⟩

theorem Agrees.receive (h : b.Agrees c) (source source' : Source) (chunk : Chunk) :
    ((b.afterAsking source).receive chunk).Agrees ((c.afterAsking source').receive chunk) := by
  refine ⟨⟨h.window.lexemeStart_eq, h.window.lexeme_eq, ?_, ?_⟩, ?_⟩
  · exact congrArg (· ++ chunk.bytes) h.window.pending_eq
  · exact congrArg (· || chunk.final) h.window.atEnd_eq
  · exact congrArg (· + 1) h.refills_eq

/-- **A refill that fails** has the failure of the source for its error, and leaves all but the
bytes before the lexeme as it is. -/
theorem agrees_of_refill_error {error : LexError} (h : b.refill = (.error error, b')) :
    (∃ causes, error = .rawInput causes) ∧ b'.Agrees b := by
  refine ⟨eq_rawInput_of_refill_error h, ?_⟩
  rcases b.refill_cases with ⟨-, hRefill⟩ | ⟨causes, source, -, -, hRefill⟩ |
    ⟨chunk, source, -, -, hRefill⟩ <;> rw [hRefill] at h <;> cases h
  exact (Agrees.refl b).afterAsking source

/-! ### Refilling until it succeeds -/

/-- Refilled again and again, up to the first refill that succeeds. -/
inductive Refilled : ScanBuffer → ScanBuffer → Prop
  | ok {b b' r} : b.refill = (.ok r, b') → Refilled b b'
  | retry {b b' b'' error} : b.refill = (.error error, b') → Refilled b' b'' → Refilled b b''

end ScanBuffer

/-! ### Scripts without their failures -/

/-- The deliveries that are no failures. -/
def Delivery.withoutFailures (deliveries : List Delivery) : List Delivery :=
  deliveries.filter fun delivery => delivery.chunk?.isSome

/-- A script without its failures; its ending stays. Other sources stay as they are. -/
def Source.mended : Source → Source
  | script deliveries ending => script (Delivery.withoutFailures deliveries) ending
  | source => source

/-- The second source is the script that the first one is, without its failures. -/
inductive Source.Mends : Source → Source → Prop
  | script (deliveries : List Delivery) (ending : Ending) :
      Mends (script deliveries ending) (script (Delivery.withoutFailures deliveries) ending)

/-- **A delivery on both sides**: the same chunk, or a failure that the mended script does not have.
There are fewer deliveries ahead behind this failure, unless both scripts are used up and fail for
good. -/
theorem Source.Mends.supply {source source' : Source} (h : source.Mends source') :
    (∃ chunk left left', source.supply = (.chunk chunk, left) ∧
        source'.supply = (.chunk chunk, left') ∧ left.Mends left') ∨
      ∃ causes left, source.supply = (.failure causes, left) ∧ left.Mends source' ∧
        (left.ahead < source.ahead ∨ ∃ left', source'.supply = (.failure causes, left')) := by
  obtain ⟨deliveries, ending⟩ := h
  rcases deliveries with _ | ⟨⟨chunk⟩ | ⟨causes⟩, deliveries⟩
  · cases ending with
    | finish => exact .inl ⟨.finish, _, _, rfl, rfl, .script [] .finish⟩
    | failure causes =>
      exact .inr ⟨causes, _, rfl, .script [] (.failure causes), .inr ⟨_, rfl⟩⟩
  · exact .inl ⟨chunk, _, _, rfl, rfl, .script deliveries ending⟩
  · exact .inr ⟨causes, _, rfl, .script deliveries ending, .inl (Nat.lt_succ_self _)⟩

/-- Without its failures, a script that ends the stream delivers the bytes of its chunks. -/
theorem Source.delivers_mended (deliveries : List Delivery) :
    (script deliveries .finish).mended.Delivers
      (Chunk.delivered (deliveries.filterMap Delivery.chunk?)) := by
  induction deliveries with
  | nil =>
    show (script [] .finish).Delivers Chunk.finish.bytes
    exact Delivers.last (t := script [] .finish) rfl rfl
  | cons delivery deliveries ih =>
    cases delivery with
    | failure causes => exact ih
    | chunk chunk =>
      show (script (.chunk chunk :: deliveries) .finish).mended.Delivers
        (Chunk.delivered (chunk :: deliveries.filterMap Delivery.chunk?))
      rw [Chunk.delivered]
      cases hFinal : chunk.final with
      | true => exact Delivers.last (t := (script deliveries .finish).mended) rfl hFinal
      | false => exact Delivers.more rfl hFinal ih

namespace ScanBuffer

/-- The buffer over the script without its failures. -/
def mended (b : ScanBuffer) : ScanBuffer := { b with source := b.source.mended }

theorem exists_remains_mended {b : ScanBuffer} {deliveries : List Delivery}
    (h : b.source = .script deliveries .finish) : ∃ rest, b.mended.Remains rest := by
  cases hEnd : b.window.atEnd with
  | true => exact ⟨_, .ended (b := b.mended) hEnd⟩
  | false =>
    have hBytes := Source.delivers_mended deliveries
    rw [← h] at hBytes
    exact ⟨_, .ahead (b := b.mended) hEnd hBytes⟩

/-- The buffer `c` agrees with `b`, and has the script of `b` without its failures. -/
structure Mends (b c : ScanBuffer) : Prop where
  agrees : b.Agrees c
  source : b.source.Mends c.source

variable {b b' c c' : ScanBuffer}

/-- **A refill on both sides**: the failing buffer is refilled as the mended one is, or it fails and
the mended one still mends it. It then has fewer deliveries ahead, unless both fail for good. -/
theorem Mends.refill (h : b.Mends c) :
    (∃ r b' r' c', b.refill = (.ok r, b') ∧ c.refill = (.ok r', c') ∧ b'.Mends c') ∨
      ∃ error b', b.refill = (.error error, b') ∧ b'.Mends c ∧
        (b'.source.ahead < b.source.ahead ∨ ∃ error' c', c.refill = (.error error', c')) := by
  have hAtEnd := h.agrees.window.atEnd_eq
  cases hEnd : b.window.atEnd with
  | true => exact .inl ⟨_, b, _, c, refill_of_atEnd hEnd, refill_of_atEnd (hAtEnd ▸ hEnd), h⟩
  | false =>
    have hEnd' : c.window.atEnd = false := hAtEnd ▸ hEnd
    rcases h.source.supply with ⟨chunk, left, left', hSupply, hSupply', hLeft⟩ |
      ⟨causes, left, hSupply, hLeft, hLess | ⟨left', hSupply'⟩⟩
    · exact .inl ⟨_, _, _, _, refill_of_chunk hEnd hSupply, refill_of_chunk hEnd' hSupply',
        h.agrees.receive left left' chunk, hLeft⟩
    · exact .inr ⟨_, _, refill_of_failure hEnd hSupply, ⟨h.agrees.afterAsking left, hLeft⟩,
        .inl hLess⟩
    · exact .inr ⟨_, _, refill_of_failure hEnd hSupply, ⟨h.agrees.afterAsking left, hLeft⟩,
        .inr ⟨_, _, refill_of_failure hEnd' hSupply'⟩⟩

/-- Refilled until it succeeds, a buffer is refilled as the mended one is. -/
theorem Refilled.mended (h : b.Refilled b') (hMends : b.Mends c) :
    ∃ r c', c.refill = (.ok r, c') ∧ b'.Mends c' := by
  induction h with
  | ok hRefill =>
    rcases hMends.refill with ⟨r, b', r', c', hRefill', hMended, hNext⟩ | ⟨error, b', hFails, -⟩
    · rw [hRefill] at hRefill'
      cases hRefill'
      exact ⟨r', c', hMended, hNext⟩
    · cases hRefill.symm.trans hFails
  | retry hFails _ ih =>
    rcases hMends.refill with ⟨r, b', r', c', hRefill, -⟩ | ⟨error, b', hFails', hStill, -⟩
    · cases hFails.symm.trans hRefill
    · rw [hFails] at hFails'
      cases hFails'
      exact ih hStill

/-- Where the mended buffer is refilled, the failing one is in the end. -/
theorem Mends.exists_refilled {r : Option Refill} (h : b.Mends c)
    (hRefill : c.refill = (.ok r, c')) : ∃ b', b.Refilled b' ∧ b'.Mends c' := by
  -- induction on the deliveries ahead
  induction hn : b.source.ahead using Nat.strong_induction_on generalizing b with
  | _ n ih =>
    subst hn
    rcases h.refill with ⟨r', b', r'', c'', hOk, hMended, hNext⟩ |
      ⟨error, b', hFails, hStill, hLess | ⟨error', c'', hMended⟩⟩
    · rw [hRefill] at hMended
      cases hMended
      exact ⟨b', .ok hOk, hNext⟩
    · obtain ⟨b'', hRefilled, hNext⟩ := ih _ hLess hStill rfl
      exact ⟨b'', .retry hFails hRefilled, hNext⟩
    · cases hRefill.symm.trans hMended

theorem Mends.reached (h : b.Mends c) (lexeme pending : List UInt8) :
    Mends { b with window := b.window.reached lexeme pending }
      { c with window := c.window.reached lexeme pending } :=
  ⟨⟨h.agrees.window.reached lexeme pending, h.agrees.refills_eq⟩, h.source⟩

/-- At the start of a lexeme, the failures of a script can be removed. -/
theorem mends_beginLexeme {deliveries : List Delivery} {ending : Ending}
    (h : b.source = .script deliveries ending) : b.beginLexeme.Mends b.mended.beginLexeme := by
  have hSource : b.source.Mends b.source.mended := by
    rw [h]
    exact .script deliveries ending
  exact ⟨⟨⟨rfl, rfl, rfl, rfl⟩, rfl⟩, hSource⟩

end ScanBuffer

/-! ### A driver that tries again -/

namespace Engine

/-- A driver scans from a resume point on. Where a scan asks for a refill, it refills until a refill
succeeds and scans again at the same point; where an action is reported, it is done. -/
inductive Drives (e : Engine) : ResumePoint → ScanBuffer → ActionId → ScanBuffer → Prop
  | matched {point b action w} :
      e.run b.window point = (.ok (.matched action), w) →
      Drives e point b action { b with window := w }
  | again {point point' b w b' action b''} :
      e.run b.window point = (.ok (.refill point'), w) →
      ScanBuffer.Refilled { b with window := w } b' →
      Drives e point' b' action b'' → Drives e point b action b''

variable {a : Automaton} {entry s : StateId} {b b' c c' : ScanBuffer} {action : ActionId}

/-- Scans of windows that agree take the same course. -/
theorem scan_cases_of_agrees (hs : s.toNat < a.size) (backend : Backend) (entry : StateId)
    {w v : Window} (h : w.Agrees v) :
    (∃ action lexeme pending,
      (inForm backend a entry).run w (backend.point s) =
          (.ok (.matched action), w.reached lexeme pending) ∧
        (inForm backend a entry).run v (backend.point s) =
          (.ok (.matched action), v.reached lexeme pending)) ∨
      ∃ q lexeme, q.toNat < a.size ∧ v.atEnd = false ∧
        (inForm backend a entry).run w (backend.point s) =
            (.ok (.refill (backend.point q)), w.reached lexeme []) ∧
          (inForm backend a entry).run v (backend.point s) =
            (.ok (.refill (backend.point q)), v.reached lexeme []) := by
  rcases scan_cases hs backend entry w with
    ⟨action, lexeme, pending, hWalks, hRun⟩ | ⟨q, row, lexeme, hEnd, hRow, hWalks, hRun⟩
  · rw [h.atEnd_eq, h.lexeme_eq, h.pending_eq] at hWalks
    exact .inl ⟨action, lexeme, pending, hRun, run_inForm hWalks backend entry⟩
  · rw [← hEnd, h.atEnd_eq, h.lexeme_eq, h.pending_eq] at hWalks
    exact .inr ⟨q, lexeme, Automaton.lt_size_of_state? hRow, h.atEnd_eq.symm.trans hEnd, hRun,
      run_inForm hWalks backend entry⟩

/-- **Failures are passed over.** What a driver finds, it finds on the mended buffer too, and so does
a search that does not try again. -/
theorem Drives.mended (hs : s.toNat < a.size) {backend : Backend}
    (h : (inForm backend a entry).Drives (backend.point s) b action b') (hMends : b.Mends c) :
    ∃ c', (inForm backend a entry).Drives (backend.point s) c action c' ∧ b'.Mends c' ∧
      (inForm backend a entry).matchFrom (backend.point s) c =
        (.ok (matchOf action c'.window), c'.beginLexeme) := by
  -- scan by scan, with the same refills
  generalize hPoint : backend.point s = point at h
  induction h generalizing s c with
  | @matched point b action w hRun =>
    subst hPoint
    rcases scan_cases_of_agrees hs backend entry hMends.agrees.window with
      ⟨action', lexeme, pending, hRun', hMended⟩ | ⟨q, lexeme, -, -, hRun', -⟩
    · rw [hRun] at hRun'
      cases hRun'
      exact ⟨_, .matched hMended, hMends.reached lexeme pending, matchFrom_of_matched hMended⟩
    · cases hRun.symm.trans hRun'
  | @again point point' b w b' action b'' hRun hRefilled _ ih =>
    subst hPoint
    rcases scan_cases_of_agrees hs backend entry hMends.agrees.window with
      ⟨action', lexeme, pending, hRun', -⟩ | ⟨q, lexeme, hq, hEnd, hRun', hMended⟩
    · cases hRun.symm.trans hRun'
    · rw [hRun] at hRun'
      cases hRun'
      obtain ⟨r, c', hRefill, hNext⟩ := hRefilled.mended (hMends.reached lexeme [])
      obtain ⟨c'', hDrives, hLast, hMatch⟩ := ih hq hNext rfl
      refine ⟨c'', .again hMended (.ok hRefill) hDrives, hLast, ?_⟩
      rw [matchFrom_of_refill_ok hMended hEnd hRefill, hMatch]

/-- **A driver gets through** to a match that is found on the mended buffer. -/
theorem exists_drives (hs : s.toNat < a.size) {backend : Backend} (hMends : b.Mends c) {m : Match}
    (h : (inForm backend a entry).matchFrom (backend.point s) c = (.ok m, c')) :
    ∃ action b', (inForm backend a entry).Drives (backend.point s) b action b' := by
  induction hn : c.toCome using Nat.strong_induction_on generalizing s b c with
  | _ n ih =>
    subst hn
    rcases scan_cases_of_agrees hs backend entry hMends.agrees.window with
      ⟨action, lexeme, pending, hRun, -⟩ | ⟨q, lexeme, hq, hEnd, hRun, hMended⟩
    · exact ⟨action, _, .matched hRun⟩
    · rcases hRefill : ScanBuffer.refill { c with window := c.window.reached lexeme [] } with
        ⟨error | r, c''⟩
      · rw [matchFrom_of_refill_error hMended hEnd hRefill] at h
        cases h
      · rw [matchFrom_of_refill_ok hMended hEnd hRefill] at h
        obtain ⟨b', hRefilled, hNext⟩ := (hMends.reached lexeme []).exists_refilled hRefill
        obtain ⟨action, b'', hDrives⟩ :=
          ih _ (ScanBuffer.toCome_refill_reached_lt hEnd hRefill) hq hNext h rfl
        exact ⟨action, b'', .again hRun hRefilled hDrives⟩

/-! ### What a search that fails leaves -/

/-- A search that fails leaves the lexeme where it begins, with the end of the stream out of
sight. -/
theorem frame_of_matchFrom_error (hs : s.toNat < a.size) {backend : Backend} {error : LexError}
    (h : (inForm backend a entry).matchFrom (backend.point s) b = (.error error, b')) :
    b'.window.lexemeStart = b.window.lexemeStart ∧ b'.window.atEnd = false := by
  refine search_induction (motive := fun s b =>
    (inForm backend a entry).matchFrom (backend.point s) b = (.error error, b') →
      b'.window.lexemeStart = b.window.lexemeStart ∧ b'.window.atEnd = false)
    backend entry ?matched ?failed ?refilled hs b h
  case matched =>
    intro s b action lexeme pending _ hRun h
    cases (matchFrom_of_matched hRun).symm.trans h
  case failed =>
    intro s b q lexeme error' b'' hEnd _ hRun hRefill h
    rw [matchFrom_of_refill_error hRun hEnd hRefill] at h
    cases h
    obtain ⟨-, hAgrees⟩ := ScanBuffer.agrees_of_refill_error hRefill
    exact ⟨hAgrees.window.lexemeStart_eq, hAgrees.window.atEnd_eq.trans hEnd⟩
  case refilled =>
    intro s b q lexeme r b'' hEnd _ hRun hRefill ih h
    rw [matchFrom_of_refill_ok hRun hEnd hRefill] at h
    obtain ⟨hStart, hAtEnd⟩ := ih h
    have hBegin : b''.window.lexemeStart = b.window.lexemeStart :=
      (ScanBuffer.lexemeStart_of_refill hRefill).trans rfl
    exact ⟨hStart.trans hBegin, hAtEnd⟩

end Engine

theorem Source.delivers_or_breaks (source : Source) :
    (∃ bytes, source.Delivers bytes) ∨ ∃ chunks causes, source.Breaks chunks causes := by
  induction hn : source.ahead using Nat.strong_induction_on generalizing source with
  | _ n ih =>
    subst hn
    rcases hSupply : source.supply with ⟨chunk | causes, next⟩
    · cases hFinal : chunk.final with
      | true => exact .inl ⟨_, .last hSupply hFinal⟩
      | false =>
        rcases ih _ (Source.ahead_supply_lt hSupply hFinal) next rfl with
          ⟨bytes, hBytes⟩ | ⟨chunks, causes, hBreaks⟩
        · exact .inl ⟨_, .more hSupply hFinal hBytes⟩
        · exact .inr ⟨_, _, .chunk hSupply hFinal hBreaks⟩
    · exact .inr ⟨_, _, .failure hSupply⟩

/-- A stream ends without a failure, or its source fails behind some chunks. -/
theorem ScanBuffer.remains_or_breaks (b : ScanBuffer) :
    (∃ rest, b.Remains rest) ∨ ∃ chunks causes, b.Breaks chunks causes := by
  cases hEnd : b.window.atEnd with
  | true => exact .inl ⟨_, .ended hEnd⟩
  | false =>
    rcases b.source.delivers_or_breaks with ⟨bytes, hBytes⟩ | ⟨chunks, causes, hBreaks⟩
    · exact .inl ⟨_, .ahead hEnd hBytes⟩
    · exact .inr ⟨chunks, causes, hEnd, hBreaks⟩

/-- **What a search that fails leaves**: the lexeme begins where the search did and holds all that
was handed over since, and the end of the stream is not in sight. -/
theorem Engine.nextMatch_error {a : Automaton} {entry : StateId} (hEntry : entry.toNat < a.size)
    {backend : Backend} {b b' : ScanBuffer} {error : LexError}
    (h : (inForm backend a entry).nextMatch b = (.error error, b')) :
    ∃ chunks causes, error = .rawInput causes ∧ b.Breaks chunks causes ∧
      b'.window.span.start = b.window.position ∧
      b'.window.text = b.window.pending ++ chunks.flatMap Chunk.bytes ∧
      b'.window.pending = [] ∧ b'.window.atEnd = false := by
  rcases b.remains_or_breaks with ⟨rest, hRest⟩ | ⟨chunks, causes, hBreaks⟩
  · -- a stream without a failure
    obtain ⟨m, left, b'', -, hMatch, -⟩ := nextMatch_finds hEntry backend hRest
    cases hMatch.symm.trans h
  · rcases nextMatch_of_breaks hEntry backend hBreaks with
      ⟨taken, later, m, b'', -, hMatch, -⟩ | ⟨q, row, b'', hFails, hText, hPending, -⟩
    · cases hMatch.symm.trans h
    · rw [hFails] at h
      cases h
      rw [nextMatch, entry_inForm] at hFails
      obtain ⟨hStart, hAtEnd⟩ := frame_of_matchFrom_error hEntry hFails
      exact ⟨chunks, causes, rfl, hBreaks, hStart, hText, hPending, hAtEnd⟩

/-- **Failures change nothing for a driver that tries again.** Let a buffer have a script of chunks
and failures for its source, in any order and number. A driver that starts a lexeme and, wherever a
refill fails, repeats it until it succeeds finds the match that is found without the failures: the
same action, span and text, with the buffer at the same position and as many deliveries taken in.
It finds a match wherever there is one without the failures, and always if the script ends the
stream. A refill that fails, on any buffer, has the failure of the source for its error, and changes
none of what can be seen of the buffer. A search for the next match that fails leaves the lexeme at
the place where it began, with all that was handed over since. -/
theorem retries_transparent {a : Automaton} {entry : StateId} (hEntry : entry.toNat < a.size)
    (backend : Backend) {b : ScanBuffer} {deliveries : List Delivery} {ending : Ending}
    (hSource : b.source = .script deliveries ending) :
    ∃ e, Engine.ofAutomaton backend a entry = .ok e ∧
      (∀ action b', e.Drives e.entry b.beginLexeme action b' →
        ∃ c', e.Drives e.entry b.mended.beginLexeme action c' ∧
          e.nextMatch b.mended = (.ok (Engine.matchOf action c'.window), c'.beginLexeme) ∧
          Engine.matchOf action b'.window = Engine.matchOf action c'.window ∧
          b'.window.position = c'.window.position ∧ b'.refills = c'.refills) ∧
      ((∃ m c', e.nextMatch b.mended = (.ok m, c')) →
        ∃ action b', e.Drives e.entry b.beginLexeme action b') ∧
      (ending = .finish → ∃ action b', e.Drives e.entry b.beginLexeme action b') ∧
      (∀ {c c' : ScanBuffer} {error}, c.refill = (.error error, c') →
        (∃ causes, error = .rawInput causes) ∧ c'.window.text = c.window.text ∧
          c'.window.span = c.window.span ∧ c'.window.position = c.window.position ∧
          c'.window.pending = c.window.pending ∧ c'.window.atEnd = c.window.atEnd ∧
          c'.refills = c.refills) ∧
      ∀ {c c' : ScanBuffer} {error}, e.nextMatch c = (.error error, c') →
        ∃ chunks causes, error = .rawInput causes ∧ c.Breaks chunks causes ∧
          c'.window.span.start = c.window.position ∧
          c'.window.text = c.window.pending ++ chunks.flatMap Chunk.bytes ∧
          c'.window.pending = [] ∧ c'.window.atEnd = false := by
  have hMends := ScanBuffer.mends_beginLexeme hSource
  have hExists : (∃ m c', (Engine.inForm backend a entry).nextMatch b.mended = (.ok m, c')) →
      ∃ action b', (Engine.inForm backend a entry).Drives (backend.point entry) b.beginLexeme action
        b' := by
    rintro ⟨m, c', hMatch⟩
    rw [Engine.nextMatch, Engine.entry_inForm] at hMatch
    exact Engine.exists_drives hEntry hMends hMatch
  refine ⟨_, Engine.ofAutomaton_of_lt hEntry backend, ?_, ?_, ?_, fun hRefill => ?_, fun hError => ?_⟩
  · intro action b' hDrives
    rw [Engine.entry_inForm] at hDrives ⊢
    obtain ⟨c', hMended, hLast, hMatch⟩ := hDrives.mended hEntry hMends
    have hWindow := hLast.agrees.window
    refine ⟨c', hMended, ?_, ?_, hWindow.position_eq, hLast.agrees.refills_eq⟩
    · rw [Engine.nextMatch, Engine.entry_inForm, hMatch]
    · rw [Engine.matchOf, hWindow.span_eq, hWindow.text_eq, Engine.matchOf]
  · rw [Engine.entry_inForm]
    exact hExists
  · rintro rfl
    rw [Engine.entry_inForm]
    obtain ⟨rest, hRest⟩ := ScanBuffer.exists_remains_mended hSource
    obtain ⟨m, left, c', -, hMatch, -⟩ := Engine.nextMatch_finds hEntry backend hRest
    exact hExists ⟨m, c', hMatch⟩
  · obtain ⟨hCauses, hAgrees⟩ := ScanBuffer.agrees_of_refill_error hRefill
    exact ⟨hCauses, hAgrees.window.text_eq, hAgrees.window.span_eq, hAgrees.window.position_eq,
      hAgrees.window.pending_eq, hAgrees.window.atEnd_eq, hAgrees.refills_eq⟩
  · exact Engine.nextMatch_error hEntry hError

/-- A source that fails twice in the middle of a word, and then goes on. -/
def stuttering : Source :=
  .script [.failure ["gone"], .failure ["gone"], .chunk (.last [98, 32])] .finish

theorem nextMatch_mended_stuttering :
    (Engine.table Automaton.words 0).nextMatch (ScanBuffer.ofSource [97] stuttering).mended =
      (.ok ⟨2, ⟨0, 2⟩, [97, 98]⟩, ⟨⟨2, [98, 97], [], [32], true, by decide⟩, .script [] .finish,
        1, 1, [⟨1, 2, 1, true⟩]⟩) := by
  have hDry : (Engine.table Automaton.words 0).run
      (ScanBuffer.ofSource [97] stuttering).mended.beginLexeme.window (.state 0) =
      (.ok (.refill (.state 2)), ⟨0, [], [97], [], false, by decide⟩) := rfl
  have hFound : (Engine.table Automaton.words 0).run ⟨0, [], [97], [98, 32], true, by decide⟩
      (.state 2) = (.ok (.matched 2), ⟨0, [], [98, 97], [32], true, by decide⟩) := rfl
  rw [Engine.nextMatch, Engine.entry, Engine.matchFrom_of_refill_ok hDry rfl rfl]
  exact Engine.matchFrom_of_matched
    (b := ⟨⟨0, [], [97], [98, 32], true, by decide⟩, .script [] .finish, 1, 1,
      [⟨1, 2, 1, true⟩]⟩) hFound

/-- The word is found behind two failures. -/
theorem retries_transparent_words :
    (0 : StateId).toNat < Automaton.words.size ∧
      (ScanBuffer.ofSource [97] stuttering).source =
        .script [.failure ["gone"], .failure ["gone"], .chunk (.last [98, 32])] .finish ∧
      ∃ e b', Engine.ofAutomaton .table Automaton.words 0 = .ok e ∧
        e.Drives e.entry (ScanBuffer.ofSource [97] stuttering).beginLexeme 2 b' ∧
        Engine.matchOf 2 b'.window = ⟨2, ⟨0, 2⟩, [97, 98]⟩ ∧ b'.window.position = 2 ∧
        b'.refills = 1 := by
  have hEntry : (0 : StateId).toNat < Automaton.words.size := by decide
  have hSource : (ScanBuffer.ofSource [97] stuttering).source =
      .script [.failure ["gone"], .failure ["gone"], .chunk (.last [98, 32])] .finish := rfl
  obtain ⟨e, hEngine, hSame, -, hFound, -⟩ := retries_transparent hEntry .table hSource
  obtain ⟨-, rfl⟩ := Engine.ofAutomaton_eq_ok_iff.mp hEngine
  obtain ⟨action, b', hDrives⟩ := hFound rfl
  obtain ⟨c', -, hMatch, hMatched, hPosition, hRefills⟩ := hSame action b' hDrives
  obtain ⟨hResult, hBuffer⟩ := Prod.mk.inj (hMatch.symm.trans nextMatch_mended_stuttering)
  have hFirst := Except.ok.inj hResult
  obtain rfl : action = 2 := congrArg Match.action hFirst
  refine ⟨hEntry, hSource, _, b', hEngine, hDrives, hMatched.trans hFirst, ?_, ?_⟩
  · rw [hPosition, ← Window.position_beginLexeme]
    exact congrArg (fun c => c.window.position) hBuffer
  · rw [hRefills]
    exact congrArg ScanBuffer.refills hBuffer

end StreamLexer
