import StreamLexer.Proofs.Input.Refill

/-!
# A buffer in use

A buffer is opened over a whole input, or over a source behind some first bytes. From then on it is
advanced, set to the start of a lexeme, and refilled, in any order. The stream so far is what the
buffer was opened with, followed by the chunks that its source has handed out. However a buffer was
used, its window shows the end of this stream: some bytes at the front are gone, and each part of
the window stands where its offsets say.

A source hands out one delivery after the other and learns nothing of its buffer. So a buffer in use
sees as many deliveries as it has asked for, and a script can hold any of them
(`Source.deliveries_script`).

## Main definitions

* `Source.deliveries`, `Source.chunks`: what a source hands out when it is asked so many times
* `Opening`: how a buffer is opened
* `Use`, `Usage`: what is done with a buffer, and a buffer with the number of bytes read from it
* `Window.Shows`: a window shows the end of a stream
* `Usage.Tracked`, `Usage.Coherent`: what every use keeps, and all that follows for the window

## Main results

* `Usage.Tracked.step`: a use keeps track of the stream
* `Usage.frozen_of_run`: at the end of the stream the source is not asked again
-/

namespace StreamLexer

/-- The chunk of a delivery that is no failure. -/
def Delivery.chunk? : Delivery → Option Chunk
  | chunk c => some c
  | failure _ => none

namespace Source

/-- The source after it was asked so many times. -/
def after (s : Source) : Nat → Source
  | 0 => s
  | n + 1 => (s.after n).supply.2

/-- What a source hands out when it is asked so many times. -/
def deliveries (s : Source) : Nat → List Delivery
  | 0 => []
  | n + 1 => s.deliveries n ++ [(s.after n).supply.1]

/-- The chunks that a source hands out when it is asked so many times. -/
def chunks (s : Source) (n : Nat) : List Chunk := (s.deliveries n).filterMap Delivery.chunk?

variable {s t : Source} {n : Nat}

theorem after_succ {d : Delivery} (h : (s.after n).supply = (d, t)) : s.after (n + 1) = t := by
  rw [after, h]

theorem chunks_succ_of_chunk {c : Chunk} (h : (s.after n).supply = (.chunk c, t)) :
    s.chunks (n + 1) = s.chunks n ++ [c] := by
  simp [chunks, deliveries, h, Delivery.chunk?]

theorem chunks_succ_of_failure {causes : List String}
    (h : (s.after n).supply = (.failure causes, t)) : s.chunks (n + 1) = s.chunks n := by
  simp [chunks, deliveries, h, Delivery.chunk?]

theorem after_script (ds : List Delivery) (ending : Ending) (n : Nat) :
    (script ds ending).after n = script (ds.drop n) ending := by
  induction n with
  | zero => rfl
  | succ n ih =>
    rw [after, ih, ← List.drop_drop]
    cases ds.drop n <;> rfl

/-- **A script hands out any deliveries** that are written into it. -/
theorem deliveries_script (ds : List Delivery) (ending : Ending) {n : Nat} (hn : n ≤ ds.length) :
    (script ds ending).deliveries n = ds.take n := by
  induction n with
  | zero => rfl
  | succ n ih =>
    obtain ⟨d, rest, hDrop⟩ := List.exists_cons_of_length_pos (l := ds.drop n) (by simp; omega)
    have hNext : ds[n]? = some d := by rw [← List.head?_drop, hDrop]; rfl
    rw [deliveries, ih (by omega), after_script, hDrop, List.take_add_one, hNext]
    rfl

theorem after_queue (chunks : List Chunk) (n : Nat) :
    (queue chunks).after n = queue (chunks.drop n) := by
  induction n with
  | zero => rfl
  | succ n ih =>
    rw [after, ih, ← List.drop_drop]
    cases chunks.drop n <;> rfl

/-- A queue hands out what a script of its chunks does. -/
theorem deliveries_queue (chunks : List Chunk) (n : Nat) :
    (queue chunks).deliveries n = (script (chunks.map .chunk) .finish).deliveries n := by
  induction n with
  | zero => rfl
  | succ n ih =>
    rw [deliveries, deliveries, ih, after_queue, after_script, ← List.map_drop]
    cases chunks.drop n <;> rfl

end Source

/-! ### The window shows the end of the stream -/

namespace Window

/-- A window shows the end of a stream: what stands before the bytes at hand is gone. -/
def Shows (w : Window) (stream : List UInt8) : Prop :=
  ∃ gone, stream = gone ++ w.bytes ∧ gone.length = w.base

variable {w : Window} {stream : List UInt8}

theorem base_add_start (w : Window) : w.base + w.start = w.lexemeStart :=
  Nat.sub_add_cancel w.spent_le

theorem limit_eq_length_bytes (w : Window) : w.limit = w.bytes.length := by
  simp only [limit, cursor, start, bytes, text, List.length_append, List.length_reverse]

theorem advance?_eq_none_iff : w.advance? = none ↔ w.isDry = true := by
  cases hPending : w.pending <;> cases hEnd : w.atEnd <;> simp [advance?, isDry, hPending, hEnd]

/-- A window that knows its next symbol moves over it. A byte goes from what waits to the lexeme,
and the end of input moves nothing. -/
theorem advance?_cases (w : Window) :
    (w.isDry = true ∧ w.advance? = none) ∨
      (w.peek? = some .eof ∧ w.advance? = some w) ∨
        ∃ c rest, w.pending = c :: rest ∧ w.peek? = some (.byte c) ∧
          w.advance? = some (w.reached (c :: w.lexeme) rest) := by
  cases hPending : w.pending with
  | cons c rest => exact .inr (.inr ⟨c, rest, rfl, by simp [peek?, hPending],
      by simp [advance?, hPending, reached]⟩)
  | nil =>
    cases hEnd : w.atEnd with
    | false => exact .inl ⟨by simp [isDry, hPending, hEnd], by simp [advance?, hPending, hEnd]⟩
    | true =>
      exact .inr (.inl ⟨by simp [peek?, hPending, hEnd], by simp [advance?, hPending, hEnd]⟩)

namespace Shows

theorem reached {c : UInt8} {rest : List UInt8} (h : w.Shows stream)
    (hPending : w.pending = c :: rest) : (w.reached (c :: w.lexeme) rest).Shows stream := by
  obtain ⟨gone, hStream, hGone⟩ := h
  refine ⟨gone, ?_, hGone⟩
  rw [hStream]
  simp [bytes, text, Window.reached, hPending]

theorem beginLexeme (h : w.Shows stream) : w.beginLexeme.Shows stream := by
  obtain ⟨gone, hStream, hGone⟩ := h
  exact ⟨gone, by rw [hStream, bytes_beginLexeme], by rw [hGone, base_beginLexeme]⟩

/-- What a window lets go of is gone as well. -/
theorem dropSpent (h : w.Shows stream) : w.dropSpent.Shows stream := by
  obtain ⟨gone, hStream, hGone⟩ := h
  refine ⟨gone ++ w.spent.reverse, ?_, ?_⟩
  · rw [hStream]
    simp [bytes, text, Window.dropSpent]
  · rw [List.length_append, List.length_reverse, hGone]
    exact w.base_add_start

theorem append (h : w.Shows stream) (more : List UInt8) (final : Bool) :
    (w.append more final).Shows (stream ++ more) := by
  obtain ⟨gone, hStream, hGone⟩ := h
  exact ⟨gone, by rw [hStream, bytes_append, List.append_assoc], hGone⟩

/-- What a window shows, split at the lexeme in progress. -/
theorem split (h : w.Shows stream) :
    ∃ front, stream = front ++ (w.text ++ w.pending) ∧ front.length = w.lexemeStart := by
  obtain ⟨gone, hStream, hGone⟩ := h
  refine ⟨gone ++ w.spent.reverse, ?_, ?_⟩
  · rw [hStream, bytes, List.append_assoc, List.append_assoc]
  · rw [List.length_append, List.length_reverse, hGone]
    exact w.base_add_start

theorem horizon_eq (h : w.Shows stream) : w.horizon = stream.length := by
  obtain ⟨front, hStream, hFront⟩ := h.split
  rw [hStream, horizon, position, text]
  simp only [List.length_append, List.length_reverse, hFront, Nat.add_assoc]

theorem bytes_eq (h : w.Shows stream) : w.bytes = stream.drop w.base := by
  obtain ⟨gone, hStream, hGone⟩ := h
  rw [hStream, ← hGone, List.drop_left]

theorem text_eq (h : w.Shows stream) : w.text = stream.extract w.span.start w.span.stop := by
  obtain ⟨front, hStream, hFront⟩ := h.split
  have hLength : w.position - w.lexemeStart = w.text.length := by
    simp only [position, text, List.length_reverse, Nat.add_sub_cancel_left]
  simp only [span, List.extract_eq_take_drop]
  rw [hLength, hStream, ← hFront, List.drop_left, List.take_left]

theorem pending_eq (h : w.Shows stream) : w.pending = stream.drop w.position := by
  obtain ⟨front, hStream, hFront⟩ := h.split
  have hPosition : w.position = (front ++ w.text).length := by
    rw [List.length_append, hFront, text, List.length_reverse, position]
  rw [hPosition, hStream, ← List.append_assoc, List.drop_left]

end Shows

end Window

/-! ### Buffers in use -/

/-- What is done with a buffer. -/
inductive Use where
  /-- Moves over the next symbol. -/
  | advance
  /-- Starts the next lexeme at the next byte. -/
  | beginLexeme
  /-- Takes in one delivery. -/
  | refill
deriving DecidableEq, Repr

/-- How a buffer is opened. -/
inductive Opening where
  /-- Over a whole input. -/
  | whole (bytes : List UInt8)
  /-- Over a source, behind some first bytes. -/
  | ahead (first : List UInt8) (source : Source)
deriving DecidableEq, Repr

namespace Opening

/-- The buffer that is opened. -/
def buffer : Opening → ScanBuffer
  | whole bytes => .ofBytes bytes
  | ahead first source => .ofSource first source

/-- The bytes that are there from the start. -/
def first : Opening → List UInt8
  | whole bytes => bytes
  | ahead first _ => first

/-- Whether they are the whole input. -/
def isWhole : Opening → Bool
  | whole _ => true
  | ahead _ _ => false

/-- The stream so far, once the source was asked so many times. -/
def stream (o : Opening) (asked : Nat) : List UInt8 :=
  o.first ++ (o.buffer.source.chunks asked).flatMap Chunk.bytes

end Opening

/-- A buffer, and the number of bytes that were read from it. -/
structure Usage where
  buffer : ScanBuffer
  read : Nat
deriving DecidableEq, Repr

/-- A buffer that was not used yet. -/
def Opening.usage (o : Opening) : Usage := ⟨o.buffer, 0⟩

namespace Usage

/-- A use of a buffer. A dry window is not advanced; moving over the end of input reads nothing. -/
def step? (u : Usage) : Use → Option Usage
  | .advance => u.buffer.window.advance?.map fun w =>
    { buffer := { u.buffer with window := w }
      read := u.read + if u.buffer.window.peek? = some .eof then 0 else 1 }
  | .beginLexeme => some { u with buffer := u.buffer.beginLexeme }
  | .refill => some { u with buffer := u.buffer.refill.2 }

/-- Uses of a buffer, one after the other. -/
def run? (u : Usage) (uses : List Use) : Option Usage := uses.foldlM step? u

/-- What every use of a buffer that was opened as `o` keeps. -/
structure Tracked (o : Opening) (u : Usage) : Prop where
  source_eq : u.buffer.source = o.buffer.source.after u.buffer.asked
  shows : u.buffer.window.Shows (o.stream u.buffer.asked)
  position_eq : u.buffer.window.position = u.read
  refills_eq : u.buffer.refills = (o.buffer.source.chunks u.buffer.asked).length
  atEnd_iff : u.buffer.window.atEnd = true ↔
    o.isWhole = true ∨ ∃ c ∈ o.buffer.source.chunks u.buffer.asked, c.final = true

/-- What holds of a buffer in use that was opened as `o`. -/
structure Coherent (o : Opening) (u : Usage) : Prop extends u.Tracked o where
  /-- The lexeme begins, and the next byte stands, within the bytes at hand. -/
  start_le : u.buffer.window.start ≤ u.buffer.window.cursor
  cursor_le : u.buffer.window.cursor ≤ u.buffer.window.limit
  limit_eq : u.buffer.window.limit = u.buffer.window.bytes.length
  /-- The bytes at hand end where the stream so far ends. -/
  horizon_eq : u.buffer.window.horizon = (o.stream u.buffer.asked).length
  bytes_eq : u.buffer.window.bytes = (o.stream u.buffer.asked).drop u.buffer.window.base
  text_eq : u.buffer.window.text =
    (o.stream u.buffer.asked).extract u.buffer.window.span.start u.buffer.window.span.stop
  pending_eq : u.buffer.window.pending = (o.stream u.buffer.asked).drop u.buffer.window.position
  /-- A refill changes neither the lexeme nor where it stands, whether it fails or not. -/
  refill_keeps : u.buffer.refill.2.window.text = u.buffer.window.text ∧
    u.buffer.refill.2.window.span = u.buffer.window.span ∧
      u.buffer.refill.2.window.position = u.buffer.window.position

variable {o : Opening} {u u' : Usage}

theorem step?_eq_none_iff {use : Use} :
    u.step? use = none ↔ use = .advance ∧ u.buffer.window.isDry = true := by
  cases use with
  | advance =>
    rw [← Window.advance?_eq_none_iff]
    simp [step?]
  | beginLexeme => simp [step?]
  | refill => simp [step?]

theorem Tracked.coherent (h : u.Tracked o) : u.Coherent o where
  toTracked := h
  start_le := Nat.le_add_right _ _
  cursor_le := Nat.le_add_right _ _
  limit_eq := Window.limit_eq_length_bytes _
  horizon_eq := h.shows.horizon_eq
  bytes_eq := h.shows.bytes_eq
  text_eq := h.shows.text_eq
  pending_eq := h.shows.pending_eq
  refill_keeps := by
    have hLexeme := ScanBuffer.lexeme_of_refill (Prod.eta u.buffer.refill).symm
    have hStart := ScanBuffer.lexemeStart_of_refill (Prod.eta u.buffer.refill).symm
    simp only [Window.text, Window.span, Window.position, hLexeme, hStart, and_self]

end Usage

namespace Opening

variable {o : Opening} {n : Nat} {t : Source}

theorem stream_succ_of_chunk {c : Chunk} (h : (o.buffer.source.after n).supply = (.chunk c, t)) :
    o.stream (n + 1) = o.stream n ++ c.bytes := by
  simp [stream, Source.chunks_succ_of_chunk h]

theorem stream_succ_of_failure {causes : List String}
    (h : (o.buffer.source.after n).supply = (.failure causes, t)) :
    o.stream (n + 1) = o.stream n := by
  simp only [stream, Source.chunks_succ_of_failure h]

/-- A buffer is tracked from the start. -/
theorem tracked (o : Opening) : o.usage.Tracked o := by
  cases o with
  | whole bytes =>
    exact
      { source_eq := rfl
        shows := ⟨[], by simp [usage, stream, buffer, first, ScanBuffer.ofBytes, Window.ofBytes,
          Window.bytes, Window.text, Source.chunks, Source.deliveries], rfl⟩
        position_eq := rfl
        refills_eq := rfl
        atEnd_iff := by simp [usage, buffer, ScanBuffer.ofBytes, Window.ofBytes, isWhole] }
  | ahead first source =>
    exact
      { source_eq := rfl
        shows := ⟨[], by simp [usage, stream, buffer, Opening.first, ScanBuffer.ofSource,
          Window.ofBytes, Window.bytes, Window.text, Source.chunks, Source.deliveries], rfl⟩
        position_eq := rfl
        refills_eq := rfl
        atEnd_iff := by simp [usage, buffer, ScanBuffer.ofSource, Window.ofBytes, isWhole,
          Source.chunks, Source.deliveries] }

end Opening

namespace Usage

variable {o : Opening} {u u' : Usage}

/-- A refill keeps track: a failure leaves the stream as it is, and a chunk goes on with it. -/
theorem Tracked.refill (h : u.Tracked o) :
    ({ u with buffer := u.buffer.refill.2 } : Usage).Tracked o := by
  rcases u.buffer.refill_cases with ⟨-, hRefill⟩ | ⟨causes, source, hEnd, hSupply, hRefill⟩ |
    ⟨chunk, source, hEnd, hSupply, hRefill⟩
  · simp only [hRefill]
    exact h
  · rw [h.source_eq] at hSupply
    simp only [hRefill]
    exact
      { source_eq := (Source.after_succ hSupply).symm
        shows := Opening.stream_succ_of_failure hSupply ▸ h.shows.dropSpent
        position_eq := h.position_eq
        refills_eq := Source.chunks_succ_of_failure hSupply ▸ h.refills_eq
        atEnd_iff := Source.chunks_succ_of_failure hSupply ▸ h.atEnd_iff }
  · rw [h.source_eq] at hSupply
    simp only [hRefill]
    refine
      { source_eq := (Source.after_succ hSupply).symm
        shows := Opening.stream_succ_of_chunk hSupply ▸ h.shows.dropSpent.append _ _
        position_eq := h.position_eq
        refills_eq := ?_
        atEnd_iff := ?_ }
    · simp [ScanBuffer.receive, ScanBuffer.afterAsking, Source.chunks_succ_of_chunk hSupply,
        h.refills_eq]
    · -- no chunk before this one was the last
      obtain ⟨hWhole, hNoFinal⟩ : o.isWhole = false ∧ ∀ c ∈ o.buffer.source.chunks u.buffer.asked,
          c.final = false := by simpa [hEnd] using h.atEnd_iff
      show (u.buffer.window.atEnd || chunk.final) = true ↔
        o.isWhole = true ∨ ∃ c ∈ o.buffer.source.chunks (u.buffer.asked + 1), c.final = true
      rw [Source.chunks_succ_of_chunk hSupply, hEnd, hWhole]
      constructor
      · intro hFinal
        exact .inr ⟨chunk, List.mem_append_right _ (List.mem_singleton_self _), hFinal⟩
      · rintro (hWhole | ⟨c, hMem, hFinal⟩)
        · cases hWhole
        · rcases List.mem_append.mp hMem with hBefore | hLast
          · rw [hNoFinal c hBefore] at hFinal
            cases hFinal
          · obtain rfl := List.mem_singleton.mp hLast
            exact hFinal

/-- **A use keeps track of the stream.** -/
theorem Tracked.step {use : Use} (h : u.Tracked o) (hUse : u.step? use = some u') :
    u'.Tracked o := by
  cases use with
  | advance =>
    simp only [step?] at hUse
    rcases u.buffer.window.advance?_cases with ⟨-, hNone⟩ | ⟨hPeek, hStay⟩ |
      ⟨c, rest, hPending, hPeek, hRead⟩
    · simp [hNone] at hUse
    · rw [hStay, hPeek] at hUse
      cases hUse
      exact h
    · rw [hRead, hPeek] at hUse
      cases hUse
      exact
        { source_eq := h.source_eq
          shows := h.shows.reached hPending
          position_eq := congrArg (· + 1) h.position_eq
          refills_eq := h.refills_eq
          atEnd_iff := h.atEnd_iff }
  | beginLexeme =>
    cases hUse
    exact
      { source_eq := h.source_eq
        shows := h.shows.beginLexeme
        position_eq := (Window.position_beginLexeme _).trans h.position_eq
        refills_eq := h.refills_eq
        atEnd_iff := h.atEnd_iff }
  | refill =>
    cases hUse
    exact h.refill

/-- What holds of a buffer and is kept by every use holds after all uses. -/
theorem run?_induction {p : Usage → Prop}
    (hStep : ∀ {v v' use}, p v → v.step? use = some v' → p v') {uses : List Use} (h : p u)
    (hRun : u.run? uses = some u') : p u' := by
  induction uses generalizing u with
  | nil =>
    cases hRun
    exact h
  | cons use uses ih =>
    rw [run?, List.foldlM_cons] at hRun
    obtain ⟨v, hUse, hRest⟩ := Option.bind_eq_some_iff.mp hRun
    exact ih (hStep h hUse) hRest

/-- At the end of the stream, a use leaves the end, the source, and how often it was asked. -/
theorem frozen_of_step {use : Use} (hEnd : u.buffer.window.atEnd = true)
    (hUse : u.step? use = some u') :
    u'.buffer.window.atEnd = true ∧ u'.buffer.source = u.buffer.source ∧
      u'.buffer.asked = u.buffer.asked := by
  cases use with
  | advance =>
    simp only [step?] at hUse
    rcases u.buffer.window.advance?_cases with ⟨-, hNone⟩ | ⟨-, hStay⟩ | ⟨c, rest, -, -, hRead⟩
    · simp [hNone] at hUse
    · rw [hStay] at hUse
      cases hUse
      exact ⟨hEnd, rfl, rfl⟩
    · rw [hRead] at hUse
      cases hUse
      exact ⟨hEnd, rfl, rfl⟩
  | beginLexeme =>
    cases hUse
    exact ⟨hEnd, rfl, rfl⟩
  | refill =>
    cases hUse
    rw [ScanBuffer.refill_of_atEnd hEnd]
    exact ⟨hEnd, rfl, rfl⟩

/-- **At the end of the stream the source is not asked again**, and the end stays. -/
theorem frozen_of_run {uses : List Use} (hEnd : u.buffer.window.atEnd = true)
    (hRun : u.run? uses = some u') :
    u'.buffer.window.atEnd = true ∧ u'.buffer.source = u.buffer.source ∧
      u'.buffer.asked = u.buffer.asked := by
  refine run?_induction (p := fun v => v.buffer.window.atEnd = true ∧
    v.buffer.source = u.buffer.source ∧ v.buffer.asked = u.buffer.asked) ?_ ⟨hEnd, rfl, rfl⟩ hRun
  rintro v v' use ⟨hEnd, hSource, hAsked⟩ hUse
  obtain ⟨hEnd', hSource', hAsked'⟩ := frozen_of_step hEnd hUse
  exact ⟨hEnd', hSource'.trans hSource, hAsked'.trans hAsked⟩

end Usage

end StreamLexer
