import StreamLexer.Command.Demo
import StreamLexer.Command.Fuzz
import StreamLexer.Command.TableFiles

/-!
# The command line

Without an argument, or with the path of a file, the program is the demonstration. `--fuzz` fuzzes
and `--tables` writes the sample grammar's tables. Settings come from environment variables.

## Main definitions

* `main`: finds out what a command needs to know, runs it, and writes its report
-/

namespace StreamLexer.Command

/-- The variables that commands read. -/
def settingNames : List String :=
  ["RLEX_BACKEND", "RLEX_CHUNK", "RLEX_VERBOSE", "FUZZ_INPUT", "FUZZ_SEED", "FUZZ_ITERS",
    "FUZZ_LEN", "FUZZ_NOISE", "TABLES_DIR"]

/-- The values of those that are set. -/
def readEnvironment : IO Environment := do
  let found ← settingNames.mapM fun name => do
    return (← IO.getEnv name).map fun value => (name, Utf8.encode value)
  return found.filterMap id

/-- The system's number for an error and its words. The number may be given with a minus sign. -/
def refusalOf (error : IO.Error) : Refusal :=
  match error with
  | .noFileOrDirectory _ code reason => known code reason
  | .alreadyExists _ code reason => known code reason
  | .inappropriateType _ code reason => known code reason
  | .invalidArgument _ code reason => known code reason
  | .permissionDenied _ code reason => known code reason
  | .resourceExhausted _ code reason => known code reason
  | .noSuchThing _ code reason => known code reason
  | .otherError code reason => known code reason
  | error => ⟨0, toString error⟩
where
  known (code : UInt32) (reason : String) : Refusal :=
    let number := (min code (0 - code)).toNat
    (Refusal.all.find? fun why => why.code = number).getD ⟨number, reason⟩

/-- Does something with files, unless that is refused. -/
def attempt {α : Type} (act : IO α) : ExceptT Refusal IO α := do
  match ← (act.toBaseIO : BaseIO (Except IO.Error α)) with
  | .ok result => return result
  | .error error => throw (refusalOf error)

/-- The contents of a file. -/
def readFile (path : String) : ExceptT Refusal IO (List UInt8) :=
  attempt do return (← IO.FS.readBinFile path).data.toList

/-- Access to the files of the system. -/
def systemFiles : FileAccess IO where
  makeDirectory path := attempt (IO.FS.createDir path)
  isDirectory path := do
    match ← (readFile path).run with
    | .error why => return why = .isDirectory
    | .ok _ => return false
  write path bytes := attempt (IO.FS.writeBinFile path ⟨bytes.toArray⟩)
  read path := readFile path

/-- Reads the file under a path, if there is a path. -/
def readIfAsked (path : Option String) :
    IO (Option (String × Except Refusal (List UInt8))) := do
  match path with
  | none => return none
  | some path => return some (path, ← (readFile path).run)

/-- Writes a report and gives its exit code. -/
def finish (report : Report) : IO UInt32 := do
  (← IO.getStdout).putStr (Report.text report.stdout)
  (← IO.getStderr).putStr (Report.text report.stderr)
  return UInt32.ofNat report.code

/-- The command of the arguments. -/
def dispatch (env : Environment) : List String → IO UInt32
  | "--fuzz" :: _ => do finish (Fuzz.run env (← readIfAsked (env.text? "FUZZ_INPUT")))
  | "--tables" :: _ => do
    finish (← TableFiles.run systemFiles ((env.text? "TABLES_DIR").getD "tables"))
  | args => do finish (Demo.run (Settings.ofEnvironment env).1 (← readIfAsked args.head?))

end StreamLexer.Command

/-- Runs the command of the arguments. -/
def main (args : List String) : IO UInt32 := do
  StreamLexer.Command.dispatch (← StreamLexer.Command.readEnvironment) args
