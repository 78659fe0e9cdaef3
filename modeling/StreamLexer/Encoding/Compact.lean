import StreamLexer.Automaton.Basic
import StreamLexer.Encoding.Word
import StreamLexer.Text.Ascii

/-!
# The compact form of an automaton

The compact form is a mark of eight bytes, the number of states, the number of classes, the class
of every symbol, and the states in order. A state begins with a word: the reserved action for a
state that reads, whose targets follow, or else the action of a terminal. Nothing follows the last
state.

## Main definitions

* `Compact.encode`: the bytes of an automaton
* `Compact.read`: the tables that a byte string holds
* `Compact.decode`: the automaton that a byte string holds
-/

namespace StreamLexer.Compact

/-- The mark at the beginning. -/
def magic : List UInt8 := ascii "RLXDFA01"

/-- The word in front of a state that reads. -/
def dispatchTag : UInt32 := reservedAction

/-- The bytes of a state. -/
def encodeState : State → List UInt8
  | .dispatch row => Word.ofU32 dispatchTag ++ row.toList.flatMap Word.ofU32
  | .terminal action => Word.ofU32 action

/-- The bytes of an automaton. -/
def encode (a : Automaton) : List UInt8 :=
  magic ++ Word.ofU32 (UInt32.ofNat a.size) ++ Word.ofU32 (UInt32.ofNat a.classCount) ++
    a.classes.toList.flatMap Word.ofU16 ++ a.states.toList.flatMap encodeState

/-- Reads a state with the given number of targets. -/
def readState (classes : Nat) (bytes : List UInt8) : Word.Read State :=
  match Word.readU32 bytes with
  | .error fault => .error fault
  | .ok (tag, bytes) =>
    if tag = dispatchTag then
      match Word.readMany Word.readU32 classes bytes with
      | .error fault => .error fault
      | .ok (row, bytes) => .ok (.dispatch row.toArray, bytes)
    else .ok (.terminal tag, bytes)

/-- Reads the numbers of states and of classes, and the class map. -/
def readHeader (bytes : List UInt8) : Word.Read (Nat × Nat × ClassMap) :=
  match Word.readU32 bytes with
  | .error fault => .error fault
  | .ok (states, bytes) =>
    match Word.readU32 bytes with
    | .error fault => .error fault
    | .ok (classCount, bytes) =>
      match Word.readMany Word.readU16 257 bytes with
      | .error fault => .error fault
      | .ok (classes, bytes) =>
        match ClassMap.ofList? classes with
        | none => .error (.truncated 16)
        | some classes => .ok ((states.toNat, classCount.toNat, classes), bytes)

/-- The tables that a byte string holds. A number of states that the rest cannot hold is refused
before any state is read. -/
def read (bytes : List UInt8) : Except FormatFault Tables :=
  if bytes.length < 16 then .error .tooShort
  else if bytes.take 8 ≠ magic then .error .badMagic
  else match readHeader (bytes.drop 8) with
    | .error fault => .error fault
    | .ok ((count, classCount, classes), bytes) =>
      if bytes.length / 4 < count then .error (.cannotFit count bytes.length)
      else match Word.readMany (readState classCount) count bytes with
        | .error fault => .error fault
        | .ok (states, []) => .ok ⟨classes, states.toArray⟩
        | .ok (_, rest) => .error (.trailing rest.length)

/-- The automaton that a byte string holds. -/
def decode (bytes : List UInt8) : Except LexError Automaton :=
  match read bytes with
  | .error fault => .error (.tableFormat fault)
  | .ok t => (Automaton.ofTables t).mapError .malformed

end StreamLexer.Compact
