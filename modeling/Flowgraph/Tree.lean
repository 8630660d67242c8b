import Flowgraph.Json.Value

/-!
# Documents as trees

A `Tree` is a document as it stands in its text: members of objects in the order written,
repeated keys included. Parts that have no value are kept as leaves, so that a decoder that
walks the tree in order meets the first fault of the text first:

* `broken` stands where the text stops being a document;
* `unreadable` is well formed and may be passed over, but has no value to be read;
* `infinite` is a number beyond the finite ones, which a value shows as `null`;
* `unkeyed` is a map with keys other than text, which may be kept aside and has no value.

A tree is also what a typed value is written as, with the members in the order of its type.
-/

set_option autoImplicit false

namespace Flowgraph

/-- A document as it stands in its text. -/
inductive Tree where
  | null
  | bool (value : Bool)
  | number (value : Json.Number)
  | string (value : String)
  | array (items : List Tree)
  | object (members : List (String × Tree))
  | infinite
  | unkeyed
  | unreadable
  | broken
  deriving Inhabited

namespace Tree

mutual

/-- The tree of a value. -/
def ofValue : Json.Value → Tree
  | .null => .null
  | .bool b => .bool b
  | .number n => .number n
  | .string s => .string s
  | .array items => .array (ofItems items)
  | .object members => .object (ofMembers members)

/-- The trees of the items of an array. -/
def ofItems : List Json.Value → List Tree
  | [] => []
  | v :: rest => ofValue v :: ofItems rest

/-- The trees of the members of an object. -/
def ofMembers : List (String × Json.Value) → List (String × Tree)
  | [] => []
  | (k, v) :: rest => (k, ofValue v) :: ofMembers rest

end

/-- The member for a value that may be left out. -/
def member? {α : Type} (name : String) (encode : α → Tree) : Option α → List (String × Tree)
  | none => []
  | some value => [(name, encode value)]

/-- The member for a string that may be left out. -/
def text? (name : String) (value : Option String) : List (String × Tree) :=
  member? name .string value

end Tree

end Flowgraph
