import Flowgraph.Decode.Fault
import Flowgraph.Json.Reader

/-!
# Decoding trees

A `Decoder` takes a tree to a typed value or to the first fault of the document. Decoding
walks the tree in the order of the text, so a part that is broken is only reported if
nothing before it is wrong.

A tree is decoded `direct`ly as it is read, or after it was `kept` aside because its type
was not known yet. A kept tree is readable throughout; the two differ in which notations of
an alternative they accept and in how they report items left over.
-/

set_option autoImplicit false

namespace Flowgraph

namespace Tree

mutual

/-- Whether the text of a tree is well formed to its end, so that it can be passed over. -/
def whole : Tree → Bool
  | .array items => wholeItems items
  | .object members => wholeMembers members
  | .broken => false
  | _ => true

/-- `whole` for the items of an array. -/
def wholeItems : List Tree → Bool
  | [] => true
  | item :: rest => item.whole && wholeItems rest

/-- `whole` for the members of an object. -/
def wholeMembers : List (String × Tree) → Bool
  | [] => true
  | (_, item) :: rest => item.whole && wholeMembers rest

end

mutual

/-- Whether every part of a tree has a value, so that it can be kept aside. -/
def readable : Tree → Bool
  | .array items => readableItems items
  | .object members => readableMembers members
  | .broken | .unreadable => false
  | _ => true

/-- `readable` for the items of an array. -/
def readableItems : List Tree → Bool
  | [] => true
  | item :: rest => item.readable && readableItems rest

/-- `readable` for the members of an object. -/
def readableMembers : List (String × Tree) → Bool
  | [] => true
  | (_, item) :: rest => item.readable && readableMembers rest

end

mutual

/-- The value of a tree: members in ascending order, the last of equal keys counting. -/
def value? : Tree → Option Json.Value
  | .null | .infinite => some .null
  | .bool b => some (.bool b)
  | .number n => some (.number n)
  | .string s => some (.string s)
  | .array items => (items? items).map .array
  | .object members => (members? members).map fun ms => .object (Assoc.ascending ms)
  | .unkeyed | .unreadable | .broken => none

/-- The values of the items of an array. -/
def items? : List Tree → Option (List Json.Value)
  | [] => some []
  | item :: rest => do return (← item.value?) :: (← items? rest)

/-- The values of the members of an object, in the order of the text. -/
def members? : List (String × Tree) → Option (List (String × Json.Value))
  | [] => some []
  | (key, item) :: rest => do return (key, ← item.value?) :: (← members? rest)

end

end Tree

namespace Decode

/-- Whether a tree is decoded as it is read or was kept aside first. -/
inductive Mode where
  | direct
  | kept
  deriving DecidableEq

/-- Takes a tree to a value of a type. -/
abbrev Decoder (α : Type) := Mode → Tree → Except Fault α

/-- The fault of finding a tree where something else is expected. -/
def mismatch {α : Type} (expected : String) : Tree → Except Fault α
  | .broken | .unreadable => .error .unreadable
  | tree => .error (.wrongType tree expected)

/-- A text. -/
def text : Decoder String := fun _ tree =>
  match tree with
  | .string s => .ok s
  | tree => mismatch "a string" tree

/-- A truth value. -/
def bool : Decoder Bool := fun _ tree =>
  match tree with
  | .bool b => .ok b
  | tree => mismatch "a boolean" tree

/-- A number, integers included. -/
def float : Decoder Binary64 := fun _ tree =>
  match tree with
  | .number n => .ok n.toBinary64
  | tree => mismatch "f64" tree

/-- Something that may be `null`. -/
def nullable {α : Type} (decode : Decoder α) : Decoder (Option α) := fun mode tree =>
  match tree with
  | .null => .ok none
  | tree => (decode mode tree).map some

/-- Every item of a list. -/
def items {α : Type} (decode : Decoder α) (mode : Mode) : List Tree → Except Fault (List α)
  | [] => .ok []
  | tree :: rest => do return (← decode mode tree) :: (← items decode mode rest)

/-- A list. -/
def list {α : Type} (decode : Decoder α) : Decoder (List α) := fun mode tree =>
  match tree with
  | .array trees => items decode mode trees
  | tree => mismatch "a sequence" tree

/-- Any value. -/
def value : Decoder Json.Value := fun _ tree =>
  match tree.value? with
  | some v => .ok v
  | none => .error .unreadable

/-- The members of an object in the order of the text. -/
def members : Decoder (List (String × Json.Value)) := fun _ tree =>
  match tree with
  | .object trees =>
    match Tree.members? trees with
    | some ms => .ok ms
    | none => .error .unreadable
  | tree => mismatch "a map" tree

/-- The members of an object in the order of authoring. -/
def authored : Decoder (List (String × Json.Value)) := fun mode tree =>
  (members mode tree).map Assoc.authored

/-- The members of an object in ascending order. -/
def ascending : Decoder (List (String × Json.Value)) := fun mode tree =>
  (members mode tree).map Assoc.ascending

/-- Decodes the text of a JSON document, which has to end after its value. -/
def ofJson {α : Type} (decode : Decoder α) (text : String) : Except Fault α := do
  let document := Json.read text
  let result ← decode .direct document.tree
  if document.ended then return result else throw .unreadable

end Decode

end Flowgraph
