import StreamLexer.Error

/-!
# What a command leaves behind

A command leaves an exit code and lines on its two outputs. A failure is reported with its causes,
numbered if there is more than one.

## Main definitions

* `Failure`: a message with its causes
* `Report`: the exit code and the lines
-/

namespace StreamLexer.Command

/-- A message with its causes, from the outermost inwards. -/
structure Failure where
  message : String
  causes : List String
deriving DecidableEq, Repr

/-- The failure of a lexing error. -/
def Failure.ofError (e : LexError) : Failure := ⟨e.message, e.causes⟩

/-- The lines that report a failure. -/
def Failure.lines (f : Failure) : List String :=
  let message := f.message
  s!"Error: {message}" :: match f.causes with
    | [] => []
    | [cause] => ["", "Caused by:", "    " ++ cause]
    | causes => "" :: "Caused by:" :: causes.mapIdx fun i cause => s!"    {i}: {cause}"

/-- The exit code of a command, and the lines it writes. -/
structure Report where
  code : Nat
  stdout : List String
  stderr : List String
deriving DecidableEq, Repr

namespace Report

/-- A command that did what it was to do. -/
def success (stdout stderr : List String) : Report := ⟨0, stdout, stderr⟩

/-- A command that failed after writing some lines. -/
def failure (f : Failure) (stdout stderr : List String) : Report :=
  ⟨1, stdout, stderr ++ f.lines⟩

/-- Lines as one text, each ended by a line break. -/
def text (lines : List String) : String := String.join (lines.map (· ++ "\n"))

end Report

end StreamLexer.Command
