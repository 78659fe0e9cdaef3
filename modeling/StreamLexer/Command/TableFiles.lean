import StreamLexer.Command.Report
import StreamLexer.Encoding.Compact
import StreamLexer.Encoding.TablesJson
import StreamLexer.Files.Access
import StreamLexer.Grammar.Sample
import StreamLexer.Text.Decimal

/-!
# Writing the sample grammar's tables

The tables of the sample grammar are written in both forms into a directory, which is made if it
is missing, and read back for comparison. The command stops where it fails; what it wrote until
then stays.

## Main definitions

* `TableFiles.jsonPath`, `TableFiles.compactPath`: where the two forms are written
* `TableFiles.run`: the command, given access to files
-/

namespace StreamLexer.Command.TableFiles

/-- Where the JSON form is written. -/
def jsonPath (directory : String) : String := Path.join directory "sample.json"

/-- Where the compact form is written. -/
def compactPath (directory : String) : String := Path.join directory "sample.bin"

/-- A number of bytes in units of 1024, with one decimal. -/
def kibibytes (bytes : Nat) : String :=
  let tenths := Decimal.roundDiv (bytes * 10) 1024
  let whole := tenths / 10
  let part := tenths % 10
  s!"{whole}.{part}"

variable {m : Type → Type} [Monad m]

/-- A command at work: it may fail, and the lines it wrote stand latest first. -/
abbrev Task (m : Type → Type) := ExceptT Failure (StateT (List String) m)

/-- Writes a line. -/
def say (line : String) : Task m Unit := modify (line :: ·)

/-- Asks for files; a refusal is a failure. -/
def ask {α : Type} (request : ExceptT Refusal m α) : Task m α := do
  match ← (request.run : m (Except Refusal α)) with
  | .ok answer => return answer
  | .error why => throw ⟨why.text, []⟩

/-- A lexing error is a failure. -/
def orFail {α : Type} : Except LexError α → Task m α
  | .ok x => return x
  | .error error => throw (.ofError error)

/-- Writes both forms of the sample grammar's tables into a directory, and reads them back. -/
def write (files : FileAccess m) (directory : String) : Task m Unit := do
  ask (files.makeDirectories directory)
  say "[gen_tables] building sample automaton..."
  let a ← orFail (Sample.automaton.mapError .malformed)
  let states := a.size
  let classes := a.classCount
  say s!"[gen_tables] {states} states, {classes} symbol classes"
  let json := jsonPath directory
  ask (files.write json (TablesJson.encode a.toTables))
  let compact := compactPath directory
  ask (files.write compact (Compact.encode a))
  let fromJson ← orFail (TablesJson.decode (← ask (files.read json)))
  let fromCompact ← orFail (Compact.decode (← ask (files.read compact)))
  if fromJson ≠ a then throw ⟨"JSON tables do not reload identically", []⟩
  if fromCompact ≠ a then throw ⟨"binary tables do not reload identically", []⟩
  let bytes := (Compact.encode a).length
  let size := kibibytes bytes
  say s!"[gen_tables] wrote {json} and {compact} ({bytes} bytes, ~{size} KiB binary)"

/-- The command, given access to files. -/
def run (files : FileAccess m) (directory : String) : m Report := do
  let (result, lines) ← (write files directory).run.run []
  match result with
  | .ok () => return .success lines.reverse []
  | .error failure => return .failure failure lines.reverse []

end StreamLexer.Command.TableFiles
