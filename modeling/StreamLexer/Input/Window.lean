import StreamLexer.Symbol

/-!
# The window over a stream

A scan sees part of a stream: the lexeme in progress, the bytes that wait to be read, and whether
anything can still follow. Bytes before the lexeme are kept until the window is next refilled, and
nothing can bring them back into a lexeme. Positions are counted from the start of the stream.

## Main definitions

* `Span`: a stretch of the stream
* `Window`: the bytes at hand
* `Window.peek?`, `Window.advance?`: the next symbol, and moving over it
* `Window.beginLexeme`, `Window.dropSpent`, `Window.append`: what changes the parts
* `Window.bytes`: everything at hand, in stream order
-/

namespace StreamLexer

/-- A stretch of the stream, from `start` up to but without `stop`. -/
structure Span where
  start : Nat
  stop : Nat
deriving DecidableEq, Repr

namespace Span

/-- The number of bytes of a span. -/
def length (s : Span) : Nat := s.stop - s.start

/-- Whether a span holds no byte. -/
def isEmpty (s : Span) : Bool := s.start == s.stop

end Span

/-- The bytes at hand of a stream. Those before the cursor stand latest first, so that reading a
byte moves it from the front of one list to the front of another. -/
structure Window where
  /-- Where in the stream the lexeme in progress begins. -/
  lexemeStart : Nat
  /-- Bytes before the lexeme that are still at hand, latest first. -/
  spent : List UInt8
  /-- The bytes of the lexeme in progress, latest first. -/
  lexeme : List UInt8
  /-- The bytes that wait to be read. -/
  pending : List UInt8
  /-- Whether the stream ends with the pending bytes. -/
  atEnd : Bool
  /-- What is kept before the lexeme is part of the stream before it. -/
  spent_le : spent.length ≤ lexemeStart := by simp
deriving DecidableEq, Repr

namespace Window

/-- The window at the start of a stream that begins with `bytes`. -/
def ofBytes (bytes : List UInt8) (atEnd : Bool) : Window := ⟨0, [], [], bytes, atEnd, by simp⟩

/-- Where the lexeme begins within the bytes at hand. -/
def start (w : Window) : Nat := w.spent.length

/-- Where the next byte stands within the bytes at hand. -/
def cursor (w : Window) : Nat := w.start + w.lexeme.length

/-- The number of bytes at hand. -/
def limit (w : Window) : Nat := w.cursor + w.pending.length

/-- Where in the stream the next byte stands. -/
def position (w : Window) : Nat := w.lexemeStart + w.lexeme.length

/-- Where in the stream the bytes at hand begin. -/
def base (w : Window) : Nat := w.lexemeStart - w.spent.length

/-- Where in the stream the bytes at hand end. -/
def horizon (w : Window) : Nat := w.position + w.pending.length

/-- The stretch of the lexeme in progress. -/
def span (w : Window) : Span := ⟨w.lexemeStart, w.position⟩

/-- The lexeme in progress, in stream order. -/
def text (w : Window) : List UInt8 := w.lexeme.reverse

/-- The bytes at hand, in stream order. -/
def bytes (w : Window) : List UInt8 := w.spent.reverse ++ w.text ++ w.pending

/-- Whether the next symbol is not known yet. -/
def isDry (w : Window) : Bool := w.pending.isEmpty && !w.atEnd

/-- Whether the whole stream has been read. -/
def isExhausted (w : Window) : Bool := w.pending.isEmpty && w.atEnd

/-- The next symbol, unless the window is dry. -/
def peek? (w : Window) : Option Symbol :=
  match w.pending with
  | b :: _ => some (.byte b)
  | [] => if w.atEnd then some .eof else none

/-- Moves over the next symbol, unless the window is dry. The end of input stays where it is. -/
def advance? (w : Window) : Option Window :=
  match w.pending with
  | b :: rest => some { w with lexeme := b :: w.lexeme, pending := rest }
  | [] => if w.atEnd then some w else none

/-- Moves the border between lexeme and pending bytes, as a scan leaves them. -/
def reached (w : Window) (lexeme pending : List UInt8) : Window :=
  { w with lexeme := lexeme, pending := pending }

/-- Starts the next lexeme at the next byte. -/
def beginLexeme (w : Window) : Window where
  lexemeStart := w.position
  spent := w.lexeme ++ w.spent
  lexeme := []
  pending := w.pending
  atEnd := w.atEnd
  spent_le := by
    have h := w.spent_le
    simp only [List.length_append, position]
    omega

/-- Lets go of the bytes before the lexeme. -/
def dropSpent (w : Window) : Window :=
  { w with spent := [], spent_le := by simp }

/-- Takes in bytes of the stream, the last ones if `final`. -/
def append (w : Window) (bytes : List UInt8) (final : Bool) : Window :=
  { w with pending := w.pending ++ bytes, atEnd := w.atEnd || final }

@[simp] theorem position_beginLexeme (w : Window) : w.beginLexeme.position = w.position := by
  simp [beginLexeme, position]

@[simp] theorem bytes_beginLexeme (w : Window) : w.beginLexeme.bytes = w.bytes := by
  simp [beginLexeme, bytes, text]

@[simp] theorem base_beginLexeme (w : Window) : w.beginLexeme.base = w.base := by
  have h := w.spent_le
  simp only [beginLexeme, base, position, List.length_append]
  omega

@[simp] theorem span_dropSpent (w : Window) : w.dropSpent.span = w.span := rfl

@[simp] theorem text_dropSpent (w : Window) : w.dropSpent.text = w.text := rfl

theorem bytes_dropSpent (w : Window) : w.dropSpent.bytes = w.bytes.drop w.start := by
  simp [dropSpent, bytes, text, start]

@[simp] theorem bytes_append (w : Window) (bytes : List UInt8) (final : Bool) :
    (w.append bytes final).bytes = w.bytes ++ bytes := by
  simp [append, Window.bytes, text]

end Window

end StreamLexer
