import StreamLexer.Error
import StreamLexer.Input.Source
import StreamLexer.Input.Window
import StreamLexer.Log

/-!
# Scan buffers

A scan buffer is a window over a stream together with the source of what follows. Refilling asks
the source for one delivery. A refill first lets go of the bytes before the lexeme, also when the
source then fails; it changes neither the lexeme nor where it stands. At the end of the stream
there is nothing to refill and the source is not asked.

## Main definitions

* `Refill`: the record of one delivery taken in
* `ScanBuffer`: a window, its source, and the records
* `ScanBuffer.refill`: takes in one delivery
* `ScanBuffer.stage`: replaces what the source has to give
-/

namespace StreamLexer

/-- The record of one delivery taken in: its number, its size, where in the stream it begins, and
whether it was the last. -/
structure Refill where
  number : Nat
  size : Nat
  offset : Nat
  final : Bool
deriving DecidableEq, Repr

/-- The log line of a refill. -/
def Refill.logLine (r : Refill) : LogLine :=
  let number := r.number
  let size := r.size
  let offset := r.offset
  let mark := if r.final then " (final)" else ""
  .debug s!"refill #{number}: +{size} bytes at offset {offset}{mark}"

/-- A window over a stream, and the source of what follows. -/
structure ScanBuffer where
  window : Window
  source : Source
  /-- The number of deliveries taken in. -/
  refills : Nat
  /-- The number of times the source was asked. -/
  asked : Nat
  /-- The records of the deliveries taken in, latest first. -/
  history : List Refill
deriving DecidableEq, Repr

namespace ScanBuffer

/-- A buffer over a stream that begins with `bytes` and goes on with the source. -/
def ofSource (bytes : List UInt8) (source : Source) : ScanBuffer :=
  ⟨.ofBytes bytes false, source, 0, 0, []⟩

/-- A buffer over a whole stream. -/
def ofBytes (bytes : List UInt8) : ScanBuffer :=
  ⟨.ofBytes bytes true, .closed, 0, 0, []⟩

/-- Whether the whole stream has been read. -/
def isExhausted (b : ScanBuffer) : Bool := b.window.isExhausted

/-- Starts the next lexeme at the next byte. -/
def beginLexeme (b : ScanBuffer) : ScanBuffer := { b with window := b.window.beginLexeme }

/-- Takes a delivered chunk into the window. -/
def receive (b : ScanBuffer) (chunk : Chunk) : ScanBuffer :=
  { b with
    window := b.window.append chunk.bytes chunk.final
    refills := b.refills + 1
    history :=
      ⟨b.refills + 1, chunk.bytes.length, b.window.horizon, chunk.final⟩ :: b.history }

/-- Lets go of the bytes before the lexeme and takes in one delivery. Gives the record of the
delivery, or none at the end of the stream. -/
def refill (b : ScanBuffer) : Except LexError (Option Refill) × ScanBuffer :=
  if b.window.atEnd then (.ok none, b)
  else
    let (delivery, source) := b.source.supply
    let b := { b with window := b.window.dropSpent, source := source, asked := b.asked + 1 }
    match delivery with
    | .failure causes => (.error (.rawInput causes), b)
    | .chunk chunk =>
      let b := b.receive chunk
      (.ok b.history.head?, b)

/-- Replaces what the source has to give by the given chunks, unless the whole stream was given
up front. -/
def stage (b : ScanBuffer) (chunks : List Chunk) : ScanBuffer :=
  match b.source with
  | .closed => b
  | _ => { b with source := .queue chunks }

/-- At most so many bytes are still to be read. -/
def volume (b : ScanBuffer) : Nat := b.window.pending.length + b.source.volume

/-- At most so many deliveries are still to be taken in. -/
def toCome (b : ScanBuffer) : Nat := if b.window.atEnd then 0 else b.source.ahead + 1

theorem toCome_refill_lt {b : ScanBuffer} {r : Option Refill} (hEnd : b.window.atEnd = false)
    (h : b.refill.1 = .ok r) : b.refill.2.toCome < b.toCome := by
  unfold refill at h ⊢
  simp only [hEnd, Bool.false_eq_true, if_false] at h ⊢
  rcases hs : b.source.supply with ⟨chunk | causes, source⟩
  · simp only [toCome, receive, Window.append, Window.dropSpent, hEnd, Bool.false_or,
      Bool.false_eq_true, if_false]
    split
    · omega
    · next hf => exact Nat.succ_lt_succ (Source.ahead_supply_lt hs (by simpa using hf))
  · simp [hs] at h

/-- The log lines of all refills, in order. -/
def logLines (b : ScanBuffer) : List LogLine := b.history.reverse.map Refill.logLine

end ScanBuffer

end StreamLexer
