import Flowgraph.Assoc

/-!
# YAML nodes

What a YAML text denotes before its scalars are given a meaning: scalars, sequences and
mappings, and aliases for nodes that carry an anchor. In the text an anchor is a name, which
may be given again to a later node; `Node.numbered?` replaces the names by numbers.
-/

set_option autoImplicit false

namespace Flowgraph.Yaml

/-- What may stand in front of a node. -/
structure Properties (α : Type) where
  anchor : Option α := none
  tag : Option String := none

/-- A node, with anchors of a given type. -/
inductive Node (α : Type) where
  | alias (target : α)
  /-- A scalar; `plain` tells that it is written without quotes and not as a block. -/
  | scalar (properties : Properties α) (plain : Bool) (text : String)
  | sequence (properties : Properties α) (items : List (Node α))
  | mapping (properties : Properties α) (entries : List (Node α × Node α))

namespace Node

variable {α : Type}

/-- The node that stands for a part that is left out. -/
def absent : Node α := .scalar {} true ""

/-- What stands in front of a node. -/
def properties : Node α → Properties α
  | .alias _ => {}
  | .scalar p _ _ | .sequence p _ | .mapping p _ => p

mutual

/-- How much work it is to read a node without following aliases: one unit for a scalar or
alias, two for a collection besides its parts. -/
def weight : Node α → Nat
  | .alias _ | .scalar _ _ _ => 1
  | .sequence _ items => 2 + itemsWeight items
  | .mapping _ entries => 2 + entriesWeight entries

/-- The weight of the items of a sequence. -/
def itemsWeight : List (Node α) → Nat
  | [] => 0
  | n :: rest => n.weight + itemsWeight rest

/-- The weight of the entries of a mapping. -/
def entriesWeight : List (Node α × Node α) → Nat
  | [] => 0
  | (k, v) :: rest => k.weight + v.weight + entriesWeight rest

end

mutual

/-- The nodes with an anchor, in the order in which they begin in the text. -/
def anchored : Node α → List (α × Node α)
  | .alias _ => []
  | .scalar p plain text => (p.anchor.map (·, .scalar p plain text)).toList
  | .sequence p items => (p.anchor.map (·, .sequence p items)).toList ++ itemsAnchored items
  | .mapping p entries =>
    (p.anchor.map (·, .mapping p entries)).toList ++ entriesAnchored entries

/-- `anchored` for the items of a sequence. -/
def itemsAnchored : List (Node α) → List (α × Node α)
  | [] => []
  | n :: rest => n.anchored ++ itemsAnchored rest

/-- `anchored` for the entries of a mapping. -/
def entriesAnchored : List (Node α × Node α) → List (α × Node α)
  | [] => []
  | (k, v) :: rest => k.anchored ++ v.anchored ++ entriesAnchored rest

end

/-! ### Anchors by number -/

/-- The numbers that the names of anchors have at some place of the text. -/
abbrev Names := List (String × Nat)

/-- Gives the name of an anchor a number: how many other names were known so far, the name
itself included if it was given before. -/
def Names.number (names : Names) (properties : Properties String) : Properties Nat × Names :=
  match properties.anchor with
  | none => (⟨none, properties.tag⟩, names)
  | some name => (⟨some names.length, properties.tag⟩, Assoc.set name names.length names)

mutual

/-- Replaces the names of anchors by numbers. Fails if an alias has a name not yet known. -/
def number? (names : Names) : Node String → Option (Node Nat × Names)
  | .alias name => (Assoc.get? name names).map fun target => (.alias target, names)
  | .scalar p plain text =>
    let (p, names) := names.number p
    some (.scalar p plain text, names)
  | .sequence p items => do
    let (p, names) := names.number p
    let (items, names) ← itemsNumber? names items
    return (.sequence p items, names)
  | .mapping p entries => do
    let (p, names) := names.number p
    let (entries, names) ← entriesNumber? names entries
    return (.mapping p entries, names)

/-- `number?` for the items of a sequence. -/
def itemsNumber? (names : Names) : List (Node String) → Option (List (Node Nat) × Names)
  | [] => some ([], names)
  | n :: rest => do
    let (n, names) ← number? names n
    let (rest, names) ← itemsNumber? names rest
    return (n :: rest, names)

/-- `number?` for the entries of a mapping. -/
def entriesNumber? (names : Names) :
    List (Node String × Node String) → Option (List (Node Nat × Node Nat) × Names)
  | [] => some ([], names)
  | (k, v) :: rest => do
    let (k, names) ← number? names k
    let (v, names) ← number? names v
    let (rest, names) ← entriesNumber? names rest
    return ((k, v) :: rest, names)

end

end Node

end Flowgraph.Yaml
