/-!
# YAML tokens

The words and marks that a YAML text is made of. Block collections have no marks of their
own: `blockSequence`, `blockMapping` and `blockEnd` stand where indentation opens and closes
them, and `key` stands in front of every key, whether the text marks it or not.
-/

set_option autoImplicit false

namespace Flowgraph.Yaml

/-- A token of a YAML text. -/
inductive Token where
  | documentStart
  | documentEnd
  /-- The directive that names the version of the format. -/
  | version (major minor : Nat)
  /-- The directive that says what a handle stands for at the start of a tag. -/
  | shorthand (handle text : String)
  | blockSequence
  | blockMapping
  | blockEnd
  | flowSequence
  | flowSequenceEnd
  | flowMapping
  | flowMappingEnd
  /-- The comma between the parts of a flow collection. -/
  | comma
  /-- The hyphen in front of an item of a block sequence. -/
  | item
  | key
  | value
  | alias (name : String)
  | anchor (name : String)
  /-- A tag; without a handle it stands in full. -/
  | tag (handle text : String)
  | scalar (plain : Bool) (text : String)
  deriving DecidableEq, Repr

end Flowgraph.Yaml
