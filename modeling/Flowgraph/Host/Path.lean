import Flowgraph.Text.Basic

/-!
# Paths

Paths of files as texts: names separated by slashes, where repeated slashes count as one and
the name `.` stands for the directory it is in.
-/

set_option autoImplicit false

namespace Flowgraph.Path

/-- Whether a path begins at the root. -/
def isAbsolute (path : String) : Bool := path.startsWith "/"

/-- The names between the slashes of a path, the name `.` included. -/
def parts (path : String) : List String :=
  ((Text.splitOn '/' path.toList).filter (!·.isEmpty)).map String.ofList

/-- The names that a path is made of. -/
def names (path : String) : List String := (parts path).filter (· ≠ ".")

/-- A path with another one below it. -/
def join (base path : String) : String :=
  if isAbsolute path then path
  else if base.isEmpty || base.endsWith "/" then base ++ path
  else base ++ "/" ++ path

/-- The directory that a path lies in. -/
def parent? (path : String) : Option String :=
  match names path with
  | [] => none
  | ns => some ((if isAbsolute path then "/" else "") ++ "/".intercalate ns.dropLast)

/-- What follows the last dot in the name of a file, unless the name begins with that dot. -/
def extension? (path : String) : Option String :=
  match (names path).getLast? with
  | none | some ".." => none
  | some name =>
    match (Text.splitOn '.' name.toList).reverse with
    | _ :: [[]] | [_] | [] => none
    | last :: _ => some (String.ofList last)

example : join "/home" "a/b" = "/home/a/b" := by decide +kernel
example : parent? "a//b/c.json" = some "a/b" := by decide +kernel
example : extension? "a.b/w.yaml.JSON" = some "JSON" := by decide +kernel
example : extension? "a/.json" = none := by decide +kernel

end Flowgraph.Path
