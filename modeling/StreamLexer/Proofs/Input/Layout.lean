import StreamLexer.Proofs.Input.Usage

/-!
# The bytes at hand with offsets

The bytes at hand can stand in one list, with the offset at which the lexeme in progress begins and
the offset of the next byte, and with the place of the first byte in the stream. Reading a byte and
beginning a lexeme move an offset. A refill first drops the bytes before the lexeme: the list then
begins later in the stream, and both offsets go down by as much. Here a slice and a drop can be
missing. A slice is there if its bounds are in order and within the list, and a drop if there are so
many bytes and the next byte is not among them.

A window has a layout, with its bytes in one list, and every layout whose offsets are in order is
that of a window. A buffer over a layout is opened and used as a buffer over a window is, and the
two stay beside each other. So no slice and no drop is missing, and both hold the same lexeme at the
same place of the stream.

## Main definitions

* `slice?`: the bytes of a list from one place up to another
* `Layout`, `Layout.compact?`: bytes at hand with offsets, and the drop of those before the lexeme
* `FlatBuffer`, `FlatBuffer.refill?`: a buffer over a layout, and a delivery taken in
* `Window.layout`, `ScanBuffer.flat`: the layout of a window, and the buffer over it

## Main results

* `Layout.inOrder_iff_exists_window`: the layouts with offsets in order are those of windows
* `Window.compact?_layout`: the arithmetic of a drop is right
* `ScanBuffer.refill?_flat`, `Usage.run?_flat`: both buffers are refilled and used alike
* `coherent_of_run`: what holds of every buffer in use
-/

namespace StreamLexer

/-- The bytes of a list from one place up to another, if both are within it and in order. -/
def slice? (bytes : List UInt8) (low high : Nat) : Option (List UInt8) :=
  if low ≤ high ∧ high ≤ bytes.length then some (bytes.extract low high) else none

theorem slice?_of_le {bytes : List UInt8} {low high : Nat} (hLow : low ≤ high)
    (hHigh : high ≤ bytes.length) :
    slice? bytes low high = some ((bytes.drop low).take (high - low)) := by
  rw [slice?, if_pos ⟨hLow, hHigh⟩, List.extract_eq_take_drop]

theorem slice?_length {bytes : List UInt8} {low : Nat} (h : low ≤ bytes.length) :
    slice? bytes low bytes.length = some (bytes.drop low) := by
  rw [slice?_of_le h (Nat.le_refl _), ← List.length_drop, List.take_length]

/-- The bytes at hand of a stream in one list, with offsets into it. -/
structure Layout where
  bytes : List UInt8
  /-- Where in the stream the first of the bytes stands. -/
  base : Nat
  /-- Where among the bytes the lexeme in progress begins. -/
  start : Nat
  /-- Where among the bytes the next byte stands. -/
  cursor : Nat
  /-- Whether the stream ends with the bytes. -/
  atEnd : Bool
deriving DecidableEq, Repr

namespace Layout

/-- Nothing at hand, at the start of a stream. -/
def empty : Layout := ⟨[], 0, 0, 0, false⟩

/-- The number of bytes at hand. -/
def limit (l : Layout) : Nat := l.bytes.length

/-- Where in the stream the next byte stands. -/
def position (l : Layout) : Nat := l.base + l.cursor

/-- Where in the stream the bytes at hand end. -/
def horizon (l : Layout) : Nat := l.base + l.limit

/-- The stretch of the lexeme in progress. -/
def span (l : Layout) : Span := ⟨l.base + l.start, l.base + l.cursor⟩

/-- The lexeme in progress. -/
def lexeme? (l : Layout) : Option (List UInt8) := slice? l.bytes l.start l.cursor

/-- The bytes that wait to be read. -/
def pending? (l : Layout) : Option (List UInt8) := slice? l.bytes l.cursor l.bytes.length

/-- The next symbol, unless it is not known yet. -/
def peek? (l : Layout) : Option Symbol :=
  match l.bytes[l.cursor]? with
  | some b => some (.byte b)
  | none => if l.atEnd then some .eof else none

/-- Moves over the next symbol, unless it is not known yet. The end of input stays where it is. -/
def advance? (l : Layout) : Option Layout :=
  if l.cursor < l.bytes.length then some { l with cursor := l.cursor + 1 }
  else if l.atEnd then some l
  else none

/-- Starts the next lexeme at the next byte. -/
def beginLexeme (l : Layout) : Layout := { l with start := l.cursor }

/-- Drops the bytes before the lexeme, which moves the others to the front. -/
def compact? (l : Layout) : Option Layout :=
  if l.start = 0 then some l
  else if l.start ≤ l.bytes.length ∧ l.start ≤ l.cursor then
    some
      { l with
        bytes := l.bytes.drop l.start
        base := l.base + l.start
        start := 0
        cursor := l.cursor - l.start }
  else none

/-- Takes in bytes of the stream, the last ones if `final`. -/
def append (l : Layout) (bytes : List UInt8) (final : Bool) : Layout :=
  { l with bytes := l.bytes ++ bytes, atEnd := l.atEnd || final }

/-- The lexeme begins, and the next byte stands, within the bytes at hand. -/
structure InOrder (l : Layout) : Prop where
  start_le : l.start ≤ l.cursor
  cursor_le : l.cursor ≤ l.limit

end Layout

/-! ### The layout of a window -/

namespace Window

/-- The bytes at hand of a window in one list, with its offsets. -/
def layout (w : Window) : Layout := ⟨w.bytes, w.base, w.start, w.cursor, w.atEnd⟩

variable (w : Window)

theorem drop_start_bytes : w.bytes.drop w.start = w.text ++ w.pending := by
  rw [start, ← List.length_reverse, bytes, List.append_assoc, List.drop_left]

theorem drop_cursor_bytes : w.bytes.drop w.cursor = w.pending := by
  have hCursor : w.cursor = w.start + w.text.length := by
    rw [cursor, text, List.length_reverse]
  rw [hCursor, ← List.drop_drop, drop_start_bytes, List.drop_left]

theorem inOrder_layout : w.layout.InOrder where
  start_le := Nat.le_add_right _ _
  cursor_le := by
    rw [Layout.limit, layout, ← limit_eq_length_bytes]
    exact Nat.le_add_right _ _

theorem position_layout : w.layout.position = w.position := by
  have hBase := w.base_add_start
  simp only [Layout.position, layout, cursor, position]
  omega

theorem horizon_layout : w.layout.horizon = w.horizon := by
  have hPosition := w.position_layout
  simp only [Layout.horizon, Layout.limit, Layout.position, layout, ← limit_eq_length_bytes, limit,
    horizon] at hPosition ⊢
  omega

theorem span_layout : w.layout.span = w.span := by
  rw [Layout.span, ← Layout.position, position_layout, layout, base_add_start, span]

theorem peek?_layout : w.layout.peek? = w.peek? := by
  simp only [Layout.peek?, layout]
  rw [← List.head?_drop, drop_cursor_bytes, peek?]
  cases w.pending <;> rfl

theorem lexeme?_layout : w.layout.lexeme? = some w.text := by
  have hLength : w.cursor - w.start = w.text.length := by
    rw [cursor, text, List.length_reverse, Nat.add_sub_cancel_left]
  rw [Layout.lexeme?, slice?_of_le w.inOrder_layout.start_le w.inOrder_layout.cursor_le]
  simp only [layout]
  rw [drop_start_bytes, hLength, List.take_left]

theorem pending?_layout : w.layout.pending? = some w.pending := by
  rw [Layout.pending?, slice?_length w.inOrder_layout.cursor_le]
  simp only [layout]
  rw [drop_cursor_bytes]

/-- A byte that is read goes over the border, and stands in the list where it did. -/
theorem layout_reached {c : UInt8} {rest : List UInt8} (hPending : w.pending = c :: rest) :
    (w.reached (c :: w.lexeme) rest).layout = { w.layout with cursor := w.cursor + 1 } := by
  simp only [layout, reached, bytes, text, cursor, start, base, hPending, List.reverse_cons,
    List.append_assoc, List.singleton_append, List.length_cons, Nat.add_assoc]

theorem advance?_layout : w.layout.advance? = w.advance?.map layout := by
  have hLimit : w.layout.bytes.length = w.layout.cursor + w.pending.length :=
    w.limit_eq_length_bytes.symm
  cases hPending : w.pending with
  | cons c rest =>
    rw [hPending, List.length_cons] at hLimit
    rw [Layout.advance?, if_pos (by omega), advance?, hPending]
    exact congrArg some (w.layout_reached hPending).symm
  | nil =>
    rw [hPending, List.length_nil] at hLimit
    rw [Layout.advance?, if_neg (by omega), advance?, hPending]
    exact (apply_ite (Option.map layout) (w.atEnd = true) (some w) none).symm

theorem layout_beginLexeme : w.beginLexeme.layout = w.layout.beginLexeme := by
  simp only [layout, Layout.beginLexeme, bytes_beginLexeme, base_beginLexeme]
  simp only [cursor, start, beginLexeme, List.length_append, List.length_nil, Nat.add_zero,
    Nat.add_comm]

/-- What is not dropped moves to the front, and its place in the stream stays. -/
theorem layout_dropSpent : w.dropSpent.layout =
    { w.layout with
      bytes := w.bytes.drop w.start
      base := w.base + w.start
      start := 0
      cursor := w.cursor - w.start } := by
  rw [layout, bytes_dropSpent, base_add_start, cursor, cursor, Nat.add_sub_cancel_left,
    show w.dropSpent.start = 0 from rfl, Nat.zero_add]
  rfl

/-- **The arithmetic of a drop is right.** It is never missing, and leaves the layout of the window
that let go of the same bytes. -/
theorem compact?_layout : w.layout.compact? = some w.dropSpent.layout := by
  rw [layout_dropSpent, Layout.compact?]
  split
  case isTrue hStart =>
    simp only [show w.start = 0 from hStart, List.drop_zero, Nat.add_zero, Nat.sub_zero]
    rw [layout, show w.start = 0 from hStart]
  case isFalse =>
    have hStart : w.layout.start ≤ w.layout.bytes.length :=
      Nat.le_trans w.inOrder_layout.start_le w.inOrder_layout.cursor_le
    rw [if_pos ⟨hStart, w.inOrder_layout.start_le⟩]
    rfl

theorem layout_append (more : List UInt8) (final : Bool) :
    (w.append more final).layout = w.layout.append more final := by
  rw [layout, bytes_append]
  rfl

end Window

namespace Layout

/-- The window that has its bytes split where a layout has its offsets. -/
def window (l : Layout) : Window where
  lexemeStart := l.base + l.start
  spent := (l.bytes.take l.start).reverse
  lexeme := ((l.bytes.drop l.start).take (l.cursor - l.start)).reverse
  pending := l.bytes.drop l.cursor
  atEnd := l.atEnd
  spent_le := by
    rw [List.length_reverse, List.length_take]
    omega

/-- Offsets that are in order are found again where the bytes are split. -/
theorem layout_window {l : Layout} (h : l.InOrder) : l.window.layout = l := by
  have hCursor : l.cursor ≤ l.bytes.length := h.cursor_le
  have hOrder := h.start_le
  have hBytes : l.window.bytes = l.bytes := by
    have hLexeme : (l.bytes.drop l.start).drop (l.cursor - l.start) = l.bytes.drop l.cursor := by
      rw [List.drop_drop, Nat.add_sub_cancel' hOrder]
    simp only [window, Window.bytes, Window.text, List.reverse_reverse, List.append_assoc]
    rw [← hLexeme, List.take_append_drop, List.take_append_drop]
  have hStart : l.window.start = l.start := by
    simp only [window, Window.start, List.length_reverse, List.length_take]
    omega
  have hBase : l.window.base = l.base := by
    rw [Window.base, ← Window.start, hStart]
    exact Nat.add_sub_cancel _ _
  have hNext : l.window.cursor = l.cursor := by
    rw [Window.cursor, hStart]
    simp only [window, List.length_reverse, List.length_take, List.length_drop]
    omega
  rw [Window.layout, hBytes, hBase, hStart, hNext, window]

/-- **The layouts whose offsets are in order are those of windows.** -/
theorem inOrder_iff_exists_window {l : Layout} : l.InOrder ↔ ∃ w : Window, w.layout = l := by
  constructor
  · intro h
    exact ⟨l.window, layout_window h⟩
  · rintro ⟨w, rfl⟩
    exact w.inOrder_layout

end Layout

/-! ### Buffers over a layout -/

/-- A layout of the bytes at hand, and the source of what follows. -/
structure FlatBuffer where
  layout : Layout
  source : Source
  /-- The number of deliveries taken in. -/
  refills : Nat
deriving DecidableEq, Repr

namespace FlatBuffer

/-- Drops the bytes before the lexeme and takes in one delivery. Gives the record of the delivery,
or none at the end of the stream. -/
def refill? (b : FlatBuffer) : Option (Except LexError (Option Refill) × FlatBuffer) :=
  if b.layout.atEnd then some (.ok none, b)
  else
    b.layout.compact?.map fun l =>
      match b.source.supply with
      | (.failure causes, source) =>
        (.error (.rawInput causes), { b with layout := l, source := source })
      | (.chunk c, source) =>
        (.ok (some ⟨b.refills + 1, c.bytes.length, l.horizon, c.final⟩),
          { layout := l.append c.bytes c.final, source := source, refills := b.refills + 1 })

/-- A use of a buffer. A layout without a next symbol is not advanced. -/
def step? (b : FlatBuffer) : Use → Option FlatBuffer
  | .advance => b.layout.advance?.map fun l => { b with layout := l }
  | .beginLexeme => some { b with layout := b.layout.beginLexeme }
  | .refill => b.refill?.map Prod.snd

/-- Uses of a buffer, one after the other. -/
def run? (b : FlatBuffer) (uses : List Use) : Option FlatBuffer := uses.foldlM step? b

end FlatBuffer

/-- The buffer over a layout that is opened. It has nothing at hand and takes in the first bytes. -/
def Opening.flat : Opening → FlatBuffer
  | whole bytes => ⟨Layout.empty.append bytes true, .closed, 0⟩
  | ahead first source => ⟨Layout.empty.append first false, source, 0⟩

/-- The buffer over the layout of a window. -/
def ScanBuffer.flat (b : ScanBuffer) : FlatBuffer := ⟨b.window.layout, b.source, b.refills⟩

theorem Opening.flat_buffer (o : Opening) : o.buffer.flat = o.flat := by
  cases o <;> rfl

/-- **Both buffers are refilled alike**, with one result. -/
theorem ScanBuffer.refill?_flat (b : ScanBuffer) :
    b.flat.refill? = some (b.refill.1, b.refill.2.flat) := by
  rcases b.refill_cases with ⟨hEnd, hRefill⟩ | ⟨causes, source, hEnd, hSupply, hRefill⟩ |
    ⟨chunk, source, hEnd, hSupply, hRefill⟩
  · rw [hRefill, FlatBuffer.refill?, if_pos (show b.flat.layout.atEnd = true from hEnd)]
  · rw [hRefill, FlatBuffer.refill?, if_neg (by simp [flat, Window.layout, hEnd])]
    simp only [flat, Window.compact?_layout, Option.map_some, hSupply]
    rfl
  · rw [hRefill, FlatBuffer.refill?, if_neg (by simp [flat, Window.layout, hEnd])]
    simp only [flat, Window.compact?_layout, Option.map_some, hSupply, Window.horizon_layout,
      ← Window.layout_append]
    rfl

namespace Usage

variable (u : Usage)

/-- **Both buffers are used alike.** -/
theorem step?_flat (use : Use) :
    u.buffer.flat.step? use = (u.step? use).map fun v => v.buffer.flat := by
  cases use with
  | advance =>
    simp only [FlatBuffer.step?, step?, ScanBuffer.flat, Window.advance?_layout, Option.map_map]
    rfl
  | beginLexeme =>
    simp only [FlatBuffer.step?, step?, ScanBuffer.flat, ← Window.layout_beginLexeme]
    rfl
  | refill =>
    rw [FlatBuffer.step?, ScanBuffer.refill?_flat]
    rfl

/-- **However both buffers are used, they stay beside each other.** -/
theorem run?_flat (uses : List Use) :
    u.buffer.flat.run? uses = (u.run? uses).map fun v => v.buffer.flat := by
  induction uses generalizing u with
  | nil => rfl
  | cons use uses ih =>
    rw [FlatBuffer.run?, run?, List.foldlM_cons, List.foldlM_cons, step?_flat]
    cases u.step? use with
    | none => rfl
    | some v => exact ih v

end Usage

/-- What holds of a buffer over a layout beside a buffer in use. -/
structure FlatBuffer.Mirrors (b : FlatBuffer) (u : Usage) : Prop where
  eq_flat : b = u.buffer.flat
  inOrder : b.layout.InOrder
  peek?_eq : b.layout.peek? = u.buffer.window.peek?
  /-- Neither slice is missing. -/
  lexeme?_eq : b.layout.lexeme? = some u.buffer.window.text
  pending?_eq : b.layout.pending? = some u.buffer.window.pending
  span_eq : b.layout.span = u.buffer.window.span
  position_eq : b.layout.position = u.buffer.window.position
  /-- Both go on alike, and where one cannot, the other cannot either. -/
  step?_eq : ∀ use, b.step? use = (u.step? use).map fun v => v.buffer.flat
  /-- A refill is not missing. It changes neither the lexeme nor where it stands, whether it fails
  or not. -/
  refill_keeps : ∃ b', b.refill? = some (u.buffer.refill.1, b') ∧
    b'.layout.lexeme? = b.layout.lexeme? ∧ b'.layout.span = b.layout.span ∧
      b'.layout.position = b.layout.position

theorem Usage.mirrors_flat (u : Usage) : u.buffer.flat.Mirrors u where
  eq_flat := rfl
  inOrder := Layout.inOrder_iff_exists_window.mpr ⟨u.buffer.window, rfl⟩
  peek?_eq := u.buffer.window.peek?_layout
  lexeme?_eq := u.buffer.window.lexeme?_layout
  pending?_eq := u.buffer.window.pending?_layout
  span_eq := u.buffer.window.span_layout
  position_eq := u.buffer.window.position_layout
  step?_eq := u.step?_flat
  refill_keeps := by
    have hLexeme := ScanBuffer.lexeme_of_refill (Prod.eta u.buffer.refill).symm
    have hStart := ScanBuffer.lexemeStart_of_refill (Prod.eta u.buffer.refill).symm
    refine ⟨u.buffer.refill.2.flat, u.buffer.refill?_flat, ?_⟩
    simp only [ScanBuffer.flat, Window.lexeme?_layout, Window.span_layout, Window.position_layout,
      Window.text, Window.span, Window.position, hLexeme, hStart, and_self]

/-- **What holds of every buffer in use.** However a buffer was opened, advanced where it was not
dry, set to the start of a lexeme and refilled, its window shows the end of the stream so far, and
its lexeme and its pending bytes are the bytes of the stream at their places. It stands behind the
bytes that were read. It is at the end exactly if all input was there from the start or a final
chunk was delivered, and from then on it stays there and its source is not asked. Only the advance
of a dry window is no use of a buffer. The buffer over a layout that is opened and used alike stays
beside it. Its refills drop the bytes before the lexeme from its list and move its offsets, which
are in order and find the same lexeme at the same place after every use. -/
theorem coherent_of_run {o : Opening} {uses : List Use} {u : Usage}
    (h : o.usage.run? uses = some u) :
    u.Coherent o ∧
      (∀ use, u.step? use = none ↔ use = .advance ∧ u.buffer.window.isDry = true) ∧
        (u.buffer.window.atEnd = true → ∀ more u', u.run? more = some u' →
          u'.buffer.window.atEnd = true ∧ u'.buffer.source = u.buffer.source ∧
            u'.buffer.asked = u.buffer.asked) ∧
          ∃ b, o.flat.run? uses = some b ∧ b.Mirrors u := by
  have hTracked : u.Tracked o := Usage.run?_induction Usage.Tracked.step o.tracked h
  refine ⟨hTracked.coherent, fun _ => Usage.step?_eq_none_iff,
    fun hEnd _ _ hRun => Usage.frozen_of_run hEnd hRun, u.buffer.flat, ?_, u.mirrors_flat⟩
  rw [← o.flat_buffer, show o.buffer = o.usage.buffer from rfl, Usage.run?_flat, h, Option.map_some]

/-- The second of two bytes is a lexeme when a refill lets go of the first one. -/
def compacting : List Use := [.advance, .beginLexeme, .advance, .refill, .advance]

theorem coherent_of_run_compacting :
    ∃ u, (Opening.ahead [97, 98] (.queue [.last [99, 100]])).usage.run? compacting = some u ∧
      u.Coherent (.ahead [97, 98] (.queue [.last [99, 100]])) ∧
      (∀ use, u.step? use = none ↔ use = .advance ∧ u.buffer.window.isDry = true) ∧
        (u.buffer.window.atEnd = true → ∀ more u', u.run? more = some u' →
          u'.buffer.window.atEnd = true ∧ u'.buffer.source = u.buffer.source ∧
            u'.buffer.asked = u.buffer.asked) ∧
        (∃ b, (Opening.ahead [97, 98] (.queue [.last [99, 100]])).flat.run? compacting = some b ∧
          b.Mirrors u) ∧
        u.buffer.window.base = 1 ∧ u.buffer.window.text = [98, 99] ∧ u.read = 3 ∧
        u.buffer.flat.layout = ⟨[98, 99, 100], 1, 0, 2, true⟩ := by
  have hRun : (Opening.ahead [97, 98] (.queue [.last [99, 100]])).usage.run? compacting =
      some ⟨⟨⟨1, [], [99, 98], [100], true, by simp⟩, .queue [], 1, 1, [⟨1, 2, 2, true⟩]⟩, 3⟩ := rfl
  obtain ⟨hCoherent, hUses, hFrozen, hFlat⟩ := coherent_of_run hRun
  exact ⟨_, hRun, hCoherent, hUses, hFrozen, hFlat, rfl, rfl, rfl, rfl⟩

end StreamLexer
