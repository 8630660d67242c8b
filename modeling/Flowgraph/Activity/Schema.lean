import Flowgraph.Decode.Variant

/-!
# Schemas of activities

A schema describes the arguments of an activity for the people who author workflows: what
each parameter is called, which values it takes and whether it has to be given. A schema has
no influence on what the activity does.
-/

set_option autoImplicit false

namespace Flowgraph.Activity

open Decode

/-- An entry of an enumeration. -/
inductive Entry where
  | plain (value : String)
  | labelled (value label : String)
  deriving DecidableEq

/-- The value of an entry without its label. -/
def Entry.value : Entry → String
  | .plain value => value
  | .labelled value _ => value

/-- The values that a parameter takes. -/
inductive Kind where
  | string (placeholder : Option String) (multiline : Bool)
  | number (min max step : Option Binary64)
  | boolean
  | enumeration (options : List Entry)
  | object
  deriving DecidableEq

/-- The name of a kind. -/
def Kind.name : Kind → String
  | .string _ _ => "string"
  | .number _ _ _ => "number"
  | .boolean => "boolean"
  | .enumeration _ => "enum"
  | .object => "object"

/-- A parameter of an activity. -/
structure Parameter where
  name : String
  label : String
  kind : Kind
  required : Bool := false
  default : Option Json.Value := none
  help : Option String := none
  deriving DecidableEq

/-- The schema of an activity. -/
structure Schema where
  name : String
  label : String
  description : Option String := none
  category : Option String := none
  parameters : List Parameter := []
  deriving DecidableEq

/-- The first parameter with a name. -/
def Schema.find? (s : Schema) (name : String) : Option Parameter :=
  s.parameters.find? (·.name = name)

/-! ### Written form -/

/-- The member for a flag, left out if it is not set. -/
def flag? (name : String) (value : Bool) : List (String × Tree) :=
  if value then [(name, .bool true)] else []

/-- The tree of a binary number. -/
def float (x : Binary64) : Tree := .number (.float x)

namespace Entry

/-- The written form of an entry. -/
def encode : Entry → Tree
  | .plain value => .string value
  | .labelled value label => .object [("value", .string value), ("label", .string label)]

/-- Reads an entry: a text, or an object with value and label. -/
def decode : Decoder Entry := fun _ tree =>
  if !tree.readable then .error .unreadable
  else match tree with
    | .string value => .ok (.plain value)
    | tree =>
      match Decode.labelled "EnumOption" ["value", "label"] (fun f =>
          Entry.labelled <$> f.required "value" text <*> f.required "label" text)
          .kept tree with
      | .ok entry => .ok entry
      | .error _ => .error (.noVariant "EnumOption")

end Entry

namespace Kind

/-- The written fields of a kind, its tag first. -/
def encode (k : Kind) : List (String × Tree) :=
  ("type", .string k.name) :: match k with
    | .string placeholder multiline =>
      Tree.text? "placeholder" placeholder ++ flag? "multiline" multiline
    | .number min max step =>
      Tree.member? "min" float min ++ Tree.member? "max" float max ++
        Tree.member? "step" float step
    | .boolean => []
    | .enumeration options => [("options", .array (options.map Entry.encode))]
    | .object => []

/-- The kinds of parameters. -/
def tagged : Tagged Kind where
  tag := "type"
  title := "internally tagged enum ParameterKind"
  alternatives :=
    [ ("string", record "struct variant ParameterKind::String" ["placeholder", "multiline"]
        fun f => Kind.string <$> f.optional "placeholder" text
          <*> f.withDefault "multiline" bool false),
      ("number", record "struct variant ParameterKind::Number" ["min", "max", "step"]
        fun f => Kind.number <$> f.optional "min" Decode.float
          <*> f.optional "max" Decode.float <*> f.optional "step" Decode.float),
      ("boolean", fun _ _ => .ok .boolean),
      ("enum", record "struct variant ParameterKind::Enum" ["options"] fun f =>
        Kind.enumeration <$> f.withDefault "options" (list Entry.decode) []),
      ("object", fun _ _ => .ok .object) ]

end Kind

namespace Parameter

/-- The written form of a parameter. -/
def encode (p : Parameter) : Tree :=
  .object (("name", .string p.name) :: ("label", .string p.label) :: p.kind.encode ++
    flag? "required" p.required ++ Tree.member? "default" .ofValue p.default ++
    Tree.text? "helpText" p.help)

/-- Reads a parameter: its own fields first, then its kind. -/
def decode : Decoder Parameter :=
  flattened "struct Parameter" ["name", "label", "required", "default", "helpText"]
    (fun f => (fun name label required default help kind =>
        ⟨name, label, kind, required, default, help⟩) <$> f.required "name" text
      <*> f.required "label" text <*> f.withDefault "required" bool false
      <*> f.optional "default" value <*> f.optional "helpText" text)
    (Kind.tagged.members .kept)
    (fun (complete : Kind → Parameter) kind => complete kind)

end Parameter

namespace Schema

/-- The written form of a schema. -/
def encode (s : Schema) : Tree :=
  .object (("name", .string s.name) :: ("label", .string s.label) ::
    Tree.text? "description" s.description ++ Tree.text? "category" s.category ++
    [("parameters", .array (s.parameters.map Parameter.encode))])

/-- Reads a schema. -/
def decode : Decoder Schema :=
  record "struct ActivitySchema" ["name", "label", "description", "category", "parameters"]
    fun f => Schema.mk <$> f.required "name" text <*> f.required "label" text
      <*> f.optional "description" text <*> f.optional "category" text
      <*> f.withDefault "parameters" (list Parameter.decode) []

end Schema

end Flowgraph.Activity
