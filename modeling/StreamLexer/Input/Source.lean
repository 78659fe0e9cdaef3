/-!
# Where the bytes come from

A source hands out the rest of a stream in deliveries: chunks, one of which may be marked as the
last, or failures. Asked again after its last delivery, a source goes on to end the stream or to
fail. Sources are values; asking one gives a delivery and the source as it is afterwards.

## Main definitions

* `Chunk`, `Delivery`: what a source hands out
* `Reader`: a reader with short and interrupted reads
* `Source`: chunks in a queue, a script of deliveries, a reader, or nothing
* `Source.split`: an input cut at given places
* `Source.supply`: the next delivery
* `Source.ahead`, `Source.volume`: bounds on what is still to come
-/

namespace StreamLexer

/-- Some bytes of the stream, and whether they are the last. -/
structure Chunk where
  bytes : List UInt8
  final : Bool
deriving DecidableEq, Repr

namespace Chunk

/-- Bytes that others may follow. -/
def more (bytes : List UInt8) : Chunk := ⟨bytes, false⟩

/-- The last bytes. -/
def last (bytes : List UInt8) : Chunk := ⟨bytes, true⟩

/-- The end of the stream alone. -/
def finish : Chunk := last []

end Chunk

/-- What a source hands out when it is asked. -/
inductive Delivery where
  | chunk (chunk : Chunk)
  /-- The source failed; the causes go from the outermost inwards. -/
  | failure (causes : List String)
deriving DecidableEq, Repr

/-- The number of bytes of a delivery. -/
def Delivery.length : Delivery → Nat
  | .chunk c => c.bytes.length
  | .failure _ => 0

/-- What happens to a reader, in order. -/
inductive ReadEvent where
  /-- Bytes arrive; a read takes as many of them as it asked for at most. Without any bytes, a
  read comes back empty. -/
  | data (bytes : List UInt8)
  /-- A read is interrupted and has to be repeated. -/
  | interrupted
  /-- A read fails. -/
  | failure (text : String)
deriving DecidableEq, Repr

/-- The number of bytes that arrive. -/
def ReadEvent.length : ReadEvent → Nat
  | data bytes => bytes.length
  | _ => 0

/-- What becomes of a source when its deliveries are used up. -/
inductive Ending where
  /-- It ends the stream. -/
  | finish
  /-- It fails. -/
  | failure (causes : List String)
deriving DecidableEq, Repr

/-- The delivery of an exhausted source. -/
def Ending.delivery : Ending → Delivery
  | finish => .chunk .finish
  | failure causes => .failure causes

/-- Where the rest of a stream comes from. -/
inductive Source where
  /-- The whole stream was given up front; no input can be staged. -/
  | closed
  /-- Chunks in a queue, and then the end of the stream. -/
  | queue (chunks : List Chunk)
  /-- A script of deliveries, and what comes after it. -/
  | script (deliveries : List Delivery) (ending : Ending)
  /-- A reader that is asked for up to `size` bytes at a time. -/
  | reader (size : Nat) (events : List ReadEvent)
deriving DecidableEq, Repr

namespace Source

/-- A source that ends the stream at once. -/
def nothing : Source := script [] .finish

/-- A reader asked for at least one byte at a time. -/
def ofReader (size : Nat) (events : List ReadEvent) : Source := reader (max size 1) events

/-- The pieces of `input`, of which `offset` bytes are gone, between the cuts. A cut before the
previous one, or past the end, is moved to there. -/
def pieces (offset : Nat) (input : List UInt8) : List Nat → List Chunk
  | [] => [.last input]
  | cut :: cuts =>
    let size := min (cut - offset) input.length
    .more (input.take size) :: pieces (offset + size) (input.drop size) cuts

/-- An input cut at the given places, in the order given. -/
def split (input : List UInt8) (cuts : List Nat) : Source := queue (pieces 0 input cuts)

/-- Asks a reader for up to `size` bytes until a read is not interrupted. What a read leaves of
its bytes waits for the next one; an empty read is the end of the stream, and so is every read when
nothing is left to happen. -/
def read (size : Nat) : List ReadEvent → Delivery × List ReadEvent
  | [] => (.chunk .finish, [])
  | .interrupted :: rest => read size rest
  | .failure text :: rest => (.failure [s!"read of up to {size} bytes failed", text], rest)
  | .data bytes :: rest =>
    let left := bytes.drop size
    let later := if left.isEmpty then rest else .data left :: rest
    match bytes.take size with
    | [] => (.chunk .finish, later)
    | piece => (.chunk (.more piece), later)

/-- The next delivery, and the source after it. -/
def supply : Source → Delivery × Source
  | closed => (.chunk .finish, closed)
  | queue [] => (.chunk .finish, queue [])
  | queue (chunk :: chunks) => (.chunk chunk, queue chunks)
  | script [] ending => (ending.delivery, script [] ending)
  | script (delivery :: deliveries) ending => (delivery, script deliveries ending)
  | reader size events =>
    let (delivery, left) := read size events
    (delivery, reader size left)

/-- The number of chunks in a queue; other sources cannot tell. -/
def remaining? : Source → Option Nat
  | queue chunks => some chunks.length
  | _ => none

/-- The sum of the sizes of all elements. -/
def total {α : Type} (size : α → Nat) : List α → Nat
  | [] => 0
  | x :: xs => size x + total size xs

/-- At most so many bytes are still to come. -/
def volume : Source → Nat
  | closed => 0
  | queue chunks => total (fun chunk => chunk.bytes.length) chunks
  | script deliveries _ => total Delivery.length deliveries
  | reader _ events => total ReadEvent.length events

/-- At most so many deliveries come from a reader to which the events happen. -/
def eventsAhead (events : List ReadEvent) : Nat := total (fun event => event.length + 1) events

/-- At most so many deliveries come before the stream ends or the source keeps failing. -/
def ahead : Source → Nat
  | closed => 0
  | queue chunks => chunks.length
  | script deliveries _ => deliveries.length
  | reader _ events => eventsAhead events

theorem eventsAhead_read_lt {size : Nat} {events left : List ReadEvent} {chunk : Chunk}
    (h : read size events = (.chunk chunk, left)) (hf : chunk.final = false) :
    eventsAhead left < eventsAhead events := by
  fun_induction read size events with
  | case1 =>
    simp only [Prod.mk.injEq, Delivery.chunk.injEq] at h
    simp [← h.1, Chunk.finish, Chunk.last] at hf
  | case2 rest ih =>
    have := ih h
    simp only [eventsAhead, total] at this ⊢
    omega
  | case3 => simp at h
  | case4 bytes rest left' later hl =>
    simp only [Prod.mk.injEq, Delivery.chunk.injEq] at h
    simp [← h.1, Chunk.finish, Chunk.last] at hf
  | case5 bytes rest left' later hl =>
    obtain ⟨-, rfl⟩ := Prod.mk.inj h
    have hlt : left'.length < bytes.length := by
      rcases bytes with _ | ⟨b, bs⟩
      · simp at hl
      · rcases size with _ | size
        · simp at hl
        · simp only [left', List.drop_succ_cons, List.length_drop, List.length_cons]
          omega
    simp only [later]
    split <;> simp only [eventsAhead, total, ReadEvent.length] <;> omega

theorem ahead_supply_lt {s t : Source} {chunk : Chunk} (h : s.supply = (.chunk chunk, t))
    (hf : chunk.final = false) : t.ahead < s.ahead := by
  unfold supply at h
  split at h
  · cases h
    cases hf
  · cases h
    cases hf
  · cases h
    simp [ahead]
  · next ending =>
    cases ending with
    | finish =>
      cases h
      cases hf
    | failure => simp [Ending.delivery] at h
  · cases h
    simp [ahead]
  · next size events =>
    simp only [Prod.mk.injEq] at h
    obtain ⟨h, rfl⟩ := h
    exact eventsAhead_read_lt (Prod.ext h rfl) hf

end Source

end StreamLexer
