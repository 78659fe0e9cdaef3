import StreamLexer.Files.Path

/-!
# Access to files

A command reaches files by a few operations, each of which the system may refuse. They are the
fields of a structure, so that a command runs on a real file system as on a model of one.

## Main definitions

* `Refusal`: why the system does not do what it is asked
* `FileAccess`: the operations
* `FileAccess.makeDirectories`: makes a directory and those above it
-/

namespace StreamLexer

/-- Why the system does not do what it is asked: its number for the reason, and its words. -/
structure Refusal where
  code : Nat
  reason : String
deriving DecidableEq, Repr

namespace Refusal

/-- Nothing stands under the path. -/
def missing : Refusal := ⟨2, "No such file or directory"⟩

/-- Something stands in the place of what is to be made. -/
def present : Refusal := ⟨17, "File exists"⟩

/-- The path leads through a file. -/
def notDirectory : Refusal := ⟨20, "Not a directory"⟩

/-- A directory is no file. -/
def isDirectory : Refusal := ⟨21, "Is a directory"⟩

/-- A name, or the path as a whole, has too many bytes. -/
def nameTooLong : Refusal := ⟨36, "File name too long"⟩

/-- The refusals with names of their own. -/
def all : List Refusal := [missing, present, notDirectory, isDirectory, nameTooLong]

/-- How a refusal is reported. -/
def text (r : Refusal) : String :=
  let reason := r.reason
  let code := r.code
  s!"{reason} (os error {code})"

end Refusal

/-- Reaches files by their paths. -/
structure FileAccess (m : Type → Type) where
  /-- Makes a directory inside one that exists. -/
  makeDirectory : String → ExceptT Refusal m Unit
  /-- Whether a path leads to a directory. -/
  isDirectory : String → m Bool
  /-- Writes a file, in the place of one that stands there. -/
  write : String → List UInt8 → ExceptT Refusal m Unit
  /-- The contents of a file. -/
  read : String → ExceptT Refusal m (List UInt8)

namespace FileAccess

variable {m : Type → Type} [Monad m]

/-- Makes a directory inside one that exists, unless it is there. -/
def ensureDirectory (files : FileAccess m) (path : String) : ExceptT Refusal m Unit :=
  tryCatch (files.makeDirectory path) fun why => do
    if why = .present && (← files.isDirectory path) then return () else throw why

/-- Ensures the first of the paths, each of which stands inside the next, whose place exists. Gives
those that now remain to be made, the outermost first. -/
def ensureOutermost (files : FileAccess m) : List String → ExceptT Refusal m (List String)
  | [] => return []
  | path :: outer =>
    tryCatch (do files.ensureDirectory path; return []) fun why => do
      if why = .missing then return (← files.ensureOutermost outer) ++ [path] else throw why

/-- Makes a directory, with those above it that are missing. -/
def makeDirectories (files : FileAccess m) (path : String) : ExceptT Refusal m Unit := do
  for inner in ← files.ensureOutermost (Path.ancestors path) do
    files.ensureDirectory inner

end FileAccess

end StreamLexer
