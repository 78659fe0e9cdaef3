import StreamLexer.Files.Access

/-!
# A tree of files

A model of a file system: files with their contents in directories. A path is walked name by name
from the root, and only directories are walked through. Names have at most 255 bytes and paths at
most 4095.

## Main definitions

* `FileTree`: files and directories
* `FileTree.walk`: where names lead
* `FileTree.makeDirectory?`, `FileTree.write?`, `FileTree.read?`: the operations
* `FileTree.access`: access to the files of a tree
-/

namespace StreamLexer

/-- A file with its contents, or a directory with its entries. -/
inductive FileTree where
  | file (bytes : List UInt8)
  | directory (entries : List (String × FileTree))

namespace FileTree

/-- A directory without entries. -/
def empty : FileTree := directory []

/-- Puts something under a path of plain names, all of which but the last are there. -/
def put (leaf : FileTree) : FileTree → List String → FileTree
  | _, [] => leaf
  | directory entries, name :: rest =>
    let inner := put leaf ((entries.lookup name).getD empty) rest
    directory ((name, inner) :: entries.filter fun entry => entry.1 ≠ name)
  | file bytes, _ :: _ => file bytes

/-- The names walked down from the root and what they lead to, the last name first. -/
abbrev Trail := List (String × FileTree)

/-- What a trail leads to. -/
def here (root : FileTree) (trail : Trail) : FileTree :=
  match trail with
  | [] => root
  | entry :: _ => entry.2

/-- Whether a name has more bytes than one may have. -/
def isTooLong (name : String) : Bool := 255 < name.utf8ByteSize

/-- Walks along names. Only directories are walked through, and the root has nothing above it. -/
def walk (root : FileTree) : Trail → List String → Except Refusal Trail
  | trail, [] => .ok trail
  | trail, name :: rest =>
    match root.here trail with
    | file _ => .error .notDirectory
    | directory entries =>
      if name = "." then walk root trail rest
      else if name = ".." then walk root trail.tail rest
      else if isTooLong name then .error .nameTooLong
      else match entries.lookup name with
        | none => .error .missing
        | some found => walk root ((name, found) :: trail) rest

/-- The names along a path that the system takes. -/
def names? (path : String) : Except Refusal (List String) :=
  if path = "" then .error .missing
  else if 4096 ≤ path.utf8ByteSize then .error .nameTooLong
  else .ok (Path.names path)

/-- What a path leads to. -/
def find? (root : FileTree) (path : String) : Except Refusal FileTree := do
  return root.here (← root.walk [] (← names? path))

/-- Where the last name of a path stands. -/
inductive Place where
  /-- The path ends at the root, or goes nowhere or up in its last name. -/
  | above
  /-- The path ends with a name in the directory that the plain names lead to, under which something
  may stand. -/
  | entry (names : List String) (found : Option FileTree)

/-- Where the last name of a path stands, which need not be there. -/
def place? (root : FileTree) (path : String) : Except Refusal Place := do
  let names ← names? path
  let trail ← root.walk [] names.dropLast
  match names.getLast?, root.here trail with
  | none, _ => return .above
  | some _, file _ => throw .notDirectory
  | some name, directory entries =>
    if name = "." ∨ name = ".." then return .above
    else if isTooLong name then throw .nameTooLong
    else return .entry ((name :: trail.map Prod.fst).reverse) (entries.lookup name)

/-- The tree with a directory made under a path. -/
def makeDirectory? (root : FileTree) (path : String) : Except Refusal FileTree := do
  match ← root.place? path with
  | .entry names none => return put empty root names
  | _ => throw .present

/-- The tree with a file written under a path. -/
def write? (root : FileTree) (path : String) (bytes : List UInt8) : Except Refusal FileTree := do
  match ← root.place? path with
  | .above | .entry _ (some (directory _)) => throw .isDirectory
  | .entry names _ => return put (file bytes) root names

/-- The contents of the file under a path. -/
def read? (root : FileTree) (path : String) : Except Refusal (List UInt8) := do
  match ← root.find? path with
  | file bytes => return bytes
  | directory _ => throw .isDirectory

/-- Whether a path leads to a directory. -/
def isDirectory (root : FileTree) (path : String) : Bool :=
  match root.find? path with
  | .ok (directory _) => true
  | _ => false

/-- Changes the tree, unless that is refused. -/
def change (f : FileTree → Except Refusal FileTree) : ExceptT Refusal (StateM FileTree) Unit :=
  fun root => match f root with
    | .ok changed => (.ok (), changed)
    | .error why => (.error why, root)

/-- Access to the files of a tree. -/
def access : FileAccess (StateM FileTree) where
  makeDirectory path := change fun root => root.makeDirectory? path
  isDirectory path := fun root => (root.isDirectory path, root)
  write path bytes := change fun root => root.write? path bytes
  read path := fun root => (root.read? path, root)

end FileTree

end StreamLexer
