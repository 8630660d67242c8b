import Flowgraph.Host.Basic

/-!
# Files in memory

A `Disk` is a tree of directories with files of text in it. Nothing can be made right under
its root.
-/

set_option autoImplicit false

namespace Flowgraph

/-- Something on a disk. -/
inductive Disk.Entry where
  | file (text : String)
  /-- A file whose bytes are no text. -/
  | binary
  | directory
  deriving DecidableEq

/-- The entries of a disk by the names that lead to them from the root. -/
abbrev Disk := List (List String × Disk.Entry)

namespace Disk

/-- The entry at some place; the root is a directory. -/
def get? (d : Disk) (place : List String) : Option Entry :=
  if place.isEmpty then some .directory else (d.find? (·.1 = place)).map (·.2)

/-- Sets the entry at some place. -/
def set (d : Disk) (place : List String) (entry : Entry) : Disk :=
  if d.any (·.1 = place) then d.map fun e => if e.1 = place then (place, entry) else e
  else d ++ [(place, entry)]

/-- Sets an entry and makes the directories it lies in. -/
def place (d : Disk) (names : List String) (entry : Entry) : Disk :=
  let above := (List.range names.length).map names.take
  let d := above.foldl (fun d p => if (d.get? p).isSome then d else d.set p .directory) d
  d.set names entry

/-- Follows names from a directory to a place, which need not exist itself. -/
def walk (d : Disk) : List String → List String → Except ReadFault (List String)
  | here, [] => .ok here
  | here, name :: rest =>
    match d.get? here with
    | none => .error .missing
    | some .directory =>
      if name = "." then walk d here rest
      else if name = ".." then walk d here.dropLast rest
      else walk d (here ++ [name]) rest
    | some _ => .error .unreadable

/-- The place of a path. A slash at the end asks for a directory. -/
def locate (d : Disk) (path : String) : Except ReadFault (List String) :=
  if path.isEmpty then .error .missing
  else
    let names := Path.parts path
    d.walk [] (if path.endsWith "/" then names ++ ["."] else names)

/-- The text of a file. -/
def read (d : Disk) (path : String) : Except ReadFault String := do
  match d.get? (← d.locate path) with
  | some (.file text) => return text
  | some _ => throw .unreadable
  | none => throw .missing

/-- Whether an entry can be made at a place. -/
def isFree (d : Disk) (place : List String) : Bool :=
  1 < place.length && d.get? place.dropLast == some .directory

/-- Writes the text of a file. -/
def write (d : Disk) (path text : String) : Option Disk :=
  match d.locate path with
  | .error _ => none
  | .ok place =>
    if d.get? place ≠ some .directory ∧ d.isFree place then some (d.set place (.file text))
    else none

/-- Makes the directories that lead to a place. -/
def makeDirectories (d : Disk) : List (List String) → Option Disk
  | [] => some d
  | place :: rest =>
    match d.get? place with
    | some .directory => makeDirectories d rest
    | some _ => none
    | none => if d.isFree place then makeDirectories (d.set place .directory) rest else none

/-- Makes a directory and the ones it lies in. -/
def makeDirectory (d : Disk) (path : String) : Option Disk :=
  let names := Path.names path
  d.makeDirectories ((List.range (names.length + 1)).map names.take)

/-- Whether there is something at a path. -/
def exists? (d : Disk) (path : String) : Bool :=
  match d.locate path with
  | .ok place => (d.get? place).isSome
  | .error _ => false

/-- Keeps a change if it was possible, and tells whether it was. -/
def change (f : Disk → Option Disk) : StateM Disk Bool := fun d =>
  match f d with
  | some d => (true, d)
  | none => (false, d)

/-- The host whose files are on a disk. -/
def host (environment : Environment) : Host (StateM Disk) where
  environment := environment
  read path := fun d => (d.read path, d)
  write path text := change (·.write path text)
  makeDirectory path := change (·.makeDirectory path)
  exists? path := fun d => (d.exists? path, d)

end Disk

end Flowgraph
