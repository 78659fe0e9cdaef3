/-!
# Paths

A path is names between slashes. Slashes in a row count as one, and a slash at the end says nothing.
The name of one dot stays where it is, and that of two dots goes up.

## Main definitions

* `Path.names`: the names along a path
* `Path.join`: the path of a name in a directory
* `Path.ancestors`: a path and those above it
-/

namespace StreamLexer.Path

/-- The names along a path. -/
def names (path : String) : List String := (path.splitOn "/").filter (· ≠ "")

/-- Whether a path starts at the root. -/
def isAbsolute (path : String) : Bool := path.startsWith "/"

/-- The path of a name in a directory. -/
def join (directory name : String) : String :=
  if directory = "" || directory.endsWith "/" then directory ++ name else directory ++ "/" ++ name

/-- The nonempty beginnings of a list other than itself, the longest first. -/
def beginnings {α : Type} : List α → List (List α)
  | [] => []
  | x :: xs => match xs with
    | [] => []
    | _ :: _ => (beginnings xs).map (x :: ·) ++ [[x]]

/-- A path and those above it, up to but without the root or the place where paths start. Those
above are spelled without the names of one dot. The root and the empty path have none. -/
def ancestors (path : String) : List String :=
  let body := (names path).filter (· ≠ ".")
  if body.isEmpty && (path = "" || isAbsolute path) then []
  else
    let lead := if isAbsolute path then "/" else ""
    path :: (beginnings body).map fun names => lead ++ "/".intercalate names

end StreamLexer.Path
