import Flowgraph.Yaml.Node.OfTokens
import Flowgraph.Yaml.Scalar

/-!
# Reading documents by shape

How the scalars of a document are read depends on where they stand: where a text is expected
they count as they are written, `5` and `null` included, and elsewhere by their meaning. A
`Shape` says what is expected; `Shape.read?` takes a text to the tree that a decoder for
documents of that shape can go on with.

Aliases are followed as they are met, which takes an alias within its own anchor to the limit
on the depth, and repeated expansion to a limit in proportion to the size of the text.
-/

set_option autoImplicit false

namespace Flowgraph.Yaml

/-- What is expected somewhere in a document. -/
inductive Shape where
  /-- A scalar that counts as it is written. -/
  | text
  /-- Nothing, or a scalar that counts as it is written. -/
  | optional
  /-- Anything; it is not read. -/
  | ignored
  /-- Any value; the keys of mappings count as they are written. -/
  | value
  /-- Any value; the keys of mappings have a meaning and have to be texts to be used. -/
  | kept
  | list (items : Shape)
  /-- A mapping with some known keys. -/
  | record (fields : List (String × Shape)) (others : Shape)

namespace Shape

/-- How many collections may lie within each other. -/
def depthLimit : Nat := 128

/-- What aliases stand for, and how many may be followed. -/
structure Anchors where
  nodes : List (Nat × Node Nat)
  limit : Nat

/-- A computation that follows aliases, and counts them. -/
abbrev Reading (α : Type) := StateT Nat Option α

/-- The node an anchor stands for: of several with its number, the last one in the text. -/
def Anchors.get? (a : Anchors) (target : Nat) : Option (Node Nat) :=
  (a.nodes.reverse.find? (·.1 = target)).map (·.2)

/-- The node that an alias stands for, or the node itself. -/
def Anchors.follow (a : Anchors) : Node Nat → Reading (Node Nat)
  | .alias target => do
    let count ← get
    if a.limit ≤ count then failure
    set (count + 1)
    (a.get? target).elim failure pure
  | node => pure node

/-- What is expected at a key of a mapping. -/
def field : Shape → String → Shape
  | .record fields others, key => (Assoc.get? key fields).getD others
  | shape, _ => shape

/-- Whether the value of a scalar may be missing where a collection is expected. -/
def isAbsent (plain : Bool) (text : String) : Bool := plain && text.isEmpty

/-- Whether a scalar stands for nothing where a text may be missing; `none` if its tag says
so and it does not. -/
def isNothing? (tag : Option String) (plain : Bool) (text : String) : Option Bool :=
  if !plain then some false
  else match tag with
    | none => some (text.isEmpty || Scalar.isNull text)
    | some tag =>
      if tag ≠ Scalar.standardTag "null" then some false
      else if Scalar.isNull text then some true else none

/-- The tree of a scalar. -/
def scalar? (tag : Option String) (plain : Bool) (text : String) : Shape → Option Tree
  | .ignored => some .null
  | .text => some (.string text)
  | .optional => (isNothing? tag plain text).map fun b => if b then .null else .string text
  | .value | .kept => Scalar.tree? tag plain text
  | .list _ => if isAbsent plain text then some (.array []) else none
  | .record _ _ => if isAbsent plain text then some (.object []) else none

/-- What is expected of the items of a sequence. -/
def items? (tag : Option String) : Shape → Option Shape
  | .list items => some items
  | .value => if tag.any (·.startsWith "!") then none else some .value
  | .kept => if tag.any (·.startsWith "!") then none else some .kept
  | _ => none

/-- What is expected of the keys of a mapping. -/
def keys? (tag : Option String) : Shape → Option Shape
  | .record _ _ => some .text
  | .value => if tag.any (·.startsWith "!") then none else some .text
  | .kept => if tag.any (·.startsWith "!") then none else some .kept
  | _ => none

/-- The text of a tree that is one. -/
def key? : Tree × Tree → Option (String × Tree)
  | (.string key, v) => some (key, v)
  | _ => none

/-- The tree of a mapping. -/
def mapping (entries : List (Tree × Tree)) : Tree :=
  match entries.mapM key? with
  | some members => .object members
  | none => .unkeyed

/-- The tree of a node, with a number of collections allowed within each other. -/
def tree (a : Anchors) : Nat → Shape → Node Nat → Reading Tree
  | _, .ignored, _ => pure .null
  | 0, shape, node => do
    match ← a.follow node with
    | .scalar p plain s => (scalar? p.tag plain s shape).elim failure pure
    | _ => failure
  | depth + 1, shape, node => do
    match ← a.follow node with
    | .alias _ => failure
    | .scalar p plain s => (scalar? p.tag plain s shape).elim failure pure
    | .sequence p items => do
      let inner ← (shape.items? p.tag).elim failure pure
      return .array (← items.mapM (tree a depth inner))
    | .mapping p entries => do
      let keys ← (shape.keys? p.tag).elim failure pure
      let entries ← entries.mapM fun (k, v) => do
        let k ← tree a depth keys k
        let v ← match k with
          | .string key => tree a depth (shape.field key) v
          | _ => tree a depth shape v
        return (k, v)
      return mapping entries

/-- The tree of a text with a single document of a shape. -/
def read? (shape : Shape) (text : String) : Option Tree := do
  let node ← Node.ofText? text
  let anchors : Anchors := ⟨node.anchored, 100 * node.weight⟩
  let (tree, _) ← (tree anchors depthLimit shape node).run 0
  return tree

end Shape

end Flowgraph.Yaml
