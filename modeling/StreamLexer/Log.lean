/-!
# Log lines

Nothing in the library writes a log. What is worth logging is returned as a value, and these are
the lines such values are shown as.

## Main definitions

* `LogLine`: a level and a text
* `LogLine.render`: both, in one line
-/

namespace StreamLexer

/-- How much a log line matters. -/
inductive LogLevel where
  | debug
  | warn
deriving DecidableEq, Repr

/-- One line of a log. -/
structure LogLine where
  level : LogLevel
  text : String
deriving DecidableEq, Repr

namespace LogLine

/-- A line for whoever follows the program's steps. -/
def debug (text : String) : LogLine := ⟨.debug, text⟩

/-- A line for whoever set the program up. -/
def warn (text : String) : LogLine := ⟨.warn, text⟩

/-- The level and the text. -/
def render (line : LogLine) : String :=
  match line.level with
  | .debug => "DEBUG " ++ line.text
  | .warn => "WARN " ++ line.text

end LogLine

end StreamLexer
