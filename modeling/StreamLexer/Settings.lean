import StreamLexer.Log
import StreamLexer.ResumePoint
import StreamLexer.Text.Ascii
import StreamLexer.Text.Utf8

/-!
# Settings

Settings come from environment variables. A variable whose value is not text counts as unset, and
a value that cannot be read leaves the default in place. Numbers are decimal digits after at most
one plus sign and have to fit in 64 bits; a flag is off only if it says so.

## Main definitions

* `Environment`: the variables
* `Environment.number`, `Environment.flag`: a variable read as a number, as a flag
* `Settings`, `Settings.ofEnvironment`: the settings of the lexer
-/

namespace StreamLexer

/-- Environment variables with their values. -/
abbrev Environment := List (String × List UInt8)

/-- The number that decimal digits after at most one plus sign stand for, if it fits in 64 bits. -/
def readNumber? (s : String) : Option Nat :=
  match Utf8.encode s with
  | 0x2B :: digits => Digits.number? UInt64.size digits
  | digits => Digits.number? UInt64.size digits

/-- A flag is off if its value is a zero, or the word "false" in any case. -/
def readFlag (s : String) : Bool := !(s == "0" || s.map Char.toLower == "false")

namespace Environment

/-- The value of a variable, if it is set to text. -/
def text? (env : Environment) (name : String) : Option String :=
  (env.lookup name).bind Utf8.decode?

/-- A variable read as a number. -/
def number (env : Environment) (name : String) (default : Nat) : Nat :=
  ((env.text? name).bind readNumber?).getD default

/-- A variable read as a flag. -/
def flag (env : Environment) (name : String) (default : Bool) : Bool :=
  ((env.text? name).map readFlag).getD default

end Environment

/-- The settings of the lexer. -/
structure Settings where
  backend : Backend
  /-- How many bytes a file is asked for at a time; at least one. -/
  chunkSize : Nat
  verbose : Bool
deriving DecidableEq, Repr

namespace Settings

/-- The settings when nothing is set. -/
def default : Settings := ⟨.table, 4096, false⟩

/-- The settings of an environment, and what is to be logged about them. -/
def ofEnvironment (env : Environment) : Settings × List LogLine :=
  let (backend, log) := match env.text? "RLEX_BACKEND" with
    | none => (default.backend, [])
    | some name =>
      match Backend.ofName name with
      | .ok backend => (backend, [])
      | .error lower =>
        let complaint := Backend.unknownMessage lower
        let used := default.backend.name
        (default.backend, [.warn s!"RLEX_BACKEND: {complaint}; using {used}"])
  let chunkSize := max (env.number "RLEX_CHUNK" default.chunkSize) 1
  (⟨backend, chunkSize, env.flag "RLEX_VERBOSE" default.verbose⟩, log)

end Settings

end StreamLexer
