import Flowgraph.Decode.Basic

/-!
# Decoding records

A record is written as an object with a member for each field, or as an array with the
fields in their order. A decoder for a record names its fields and takes each from the
`Fields` found in the document:

    record "struct Point" ["x", "y"] fun f => Point.mk <$> f.required "x" float <*> …

A `Part` of a record is its value or its first fault together with the place of that fault
in the document. Putting parts together keeps the fault that comes first in the document;
fields that are missing come last, in the order in which the parts are put together.
-/

set_option autoImplicit false

namespace Flowgraph.Decode

/-- A part of a record: its value, or its first fault and the place of it. -/
inductive Part (α : Type) where
  | ok (value : α)
  | wrong (place : Nat) (fault : Fault)

namespace Part

variable {α β : Type}

/-- Applies a function to a part. -/
def map (f : α → β) : Part α → Part β
  | .ok a => .ok (f a)
  | .wrong place fault => .wrong place fault

/-- Puts two parts together; of two faults the one at the earlier place counts. -/
def apply : Part (α → β) → Part α → Part β
  | .ok f, .ok a => .ok (f a)
  | .ok _, .wrong place fault => .wrong place fault
  | .wrong place fault, .ok _ => .wrong place fault
  | .wrong place fault, .wrong place' fault' =>
    if place' < place then .wrong place' fault' else .wrong place fault

instance : Applicative Part where
  pure := .ok
  map := map
  seq f x := apply f (x ())

/-- The value or the fault of a part. -/
def result : Part α → Except Fault α
  | .ok a => .ok a
  | .wrong _ fault => .error fault

/-- A result at a place of the document. -/
def placed (place : Nat) : Except Fault α → Part α
  | .ok a => .ok a
  | .error fault => .wrong place fault

end Part

/-- The parts of a record as they stand in a document. -/
inductive Source where
  | members (entries : List (String × Tree))
  | items (trees : List Tree)

/-- The fields of a record to be taken from a document. -/
structure Fields where
  /-- What the record is called where one is expected. -/
  title : String
  /-- The names of the fields in their order. -/
  names : List String
  mode : Mode
  source : Source

namespace Fields

variable {α : Type}

/-- The members with a name, each with its place. -/
def occurrences (name : String) (entries : List (String × Tree)) : List (Nat × Tree) :=
  entries.zipIdx.filterMap fun ((key, tree), place) =>
    if key = name then some (place, tree) else none

/-- "3 elements", or "1 element". -/
def counted (n : Nat) : String :=
  if n = 1 then "1 element" else toString n ++ " elements"

/-- A field with the value it has when it is missing; without one it has to be there. -/
def field (f : Fields) (name : String) (decode : Decoder α) (missing : Option α) : Part α :=
  match f.source with
  | .members entries =>
    match occurrences name entries, missing with
    | [], some value => .ok value
    | [], none => .wrong entries.length (.missingField name)
    | [(place, tree)], _ => .placed place (decode f.mode tree)
    | (place, tree) :: (place', _) :: _, _ =>
      match decode f.mode tree with
      | .ok _ => .wrong place' (.duplicateField name)
      | .error fault => .wrong place fault
  | .items trees =>
    let index := f.names.idxOf name
    match trees[index]?, missing with
    | some tree, _ => .placed index (decode f.mode tree)
    | none, some value => .ok value
    | none, none =>
      .wrong index (.wrongLength index (f.title ++ " with " ++ counted f.names.length))

/-- A field that has to be there. -/
def required (f : Fields) (name : String) (decode : Decoder α) : Part α :=
  f.field name decode none

/-- A field that has a value when it is missing. -/
def withDefault (f : Fields) (name : String) (decode : Decoder α) (value : α) : Part α :=
  f.field name decode (some value)

/-- A field that may be missing or `null`. -/
def optional (f : Fields) (name : String) (decode : Decoder α) : Part (Option α) :=
  f.field name (nullable decode) (some none)

/-- The members that are no field of the record, or the items after its last field: the
former are passed over, the latter a fault. -/
def rest (f : Fields) : Part Unit :=
  match f.source with
  | .members entries =>
    match entries.zipIdx.find? fun ((key, tree), _) => !f.names.contains key && !tree.whole with
    | some (_, place) => .wrong place .unreadable
    | none => .ok ()
  | .items trees =>
    let count := f.names.length
    if trees.length ≤ count then .ok ()
    else .wrong count (match f.mode with
      | .direct => .unreadable
      | .kept => .wrongLength trees.length (counted count ++ " in sequence"))

/-- The members that are no field of the record, kept aside. -/
def keep (f : Fields) : Part (List (String × Tree)) :=
  match f.source with
  | .members entries =>
    match entries.zipIdx.find? fun ((key, tree), _) =>
        !f.names.contains key && !tree.readable with
    | some (_, place) => .wrong place .unreadable
    | none => .ok (entries.filter fun (key, _) => !f.names.contains key)
  | .items _ => .ok []

end Fields

/-- A record that is written as an object only. -/
def labelled {α : Type} (title : String) (names : List String) (parts : Fields → Part α) :
    Decoder α := fun mode tree =>
  match tree with
  | .object entries =>
    let f : Fields := ⟨title, names, mode, .members entries⟩
    (parts f <* f.rest).result
  | tree => mismatch title tree

/-- A record. -/
def record {α : Type} (title : String) (names : List String) (parts : Fields → Part α) :
    Decoder α := fun mode tree =>
  match tree with
  | .array trees =>
    let f : Fields := ⟨title, names, mode, .items trees⟩
    (parts f <* f.rest).result
  | tree => labelled title names parts mode tree

/-- A record that is written as an object together with the members of another type; those
are kept aside and decoded last. -/
def flattened {α β γ : Type} (title : String) (names : List String) (parts : Fields → Part α)
    (others : List (String × Tree) → Except Fault β) (join : α → β → γ) : Decoder γ :=
  fun mode tree =>
    match tree with
    | .object entries => do
      let f : Fields := ⟨title, names, mode, .members entries⟩
      let (a, kept) ← (Prod.mk <$> parts f <*> f.keep).result
      return join a (← others kept)
    | tree => mismatch title tree

end Flowgraph.Decode
