import Flowgraph.Decode.Record

/-!
# Decoding alternatives

A `choice` is one of several names. A type with alternatives that have fields of their own
is written as an object with a tag that names the alternative among the fields; its
alternatives are decoded from what is left of the object.
-/

set_option autoImplicit false

namespace Flowgraph.Decode

variable {α : Type}

/-- The alternative with a name. -/
def named (names : List (String × α)) (name : String) : Except Fault α :=
  match Assoc.get? name names with
  | some a => .ok a
  | none => .error (.unknownVariant name (names.map (·.1)))

/-- What stands for no content of an alternative. -/
def nothing : Mode → Tree → Except Fault Unit
  | _, .null => .ok ()
  | .kept, .object [] => .ok ()
  | _, tree => mismatch "unit" tree

/-- One of several names, as a text or as the only key of an object. -/
def choice (names : List (String × α)) : Decoder α := fun mode tree =>
  match mode, tree with
  | _, .string name => named names name
  | .direct, .object [] => .error .unreadable
  | .direct, .object ((name, content) :: more) =>
    if name.isEmpty && !content.whole then .error .unreadable
    else do
      let a ← named names name
      nothing mode content
      if more.isEmpty then return a else throw .unreadable
  | .direct, _ => .error .unreadable
  | .kept, .object [(name, content)] => do
    let a ← named names name
    nothing mode content
    return a
  | .kept, .object entries => .error (.wrongValue (.object entries) "map with a single key")
  | .kept, tree => mismatch "string or map" tree

/-- A type with alternatives told apart by a tag. -/
structure Tagged (α : Type) where
  /-- The name of the tag. -/
  tag : String
  /-- What the type is called where one is expected. -/
  title : String
  /-- The alternatives, each with the decoder of its content. -/
  alternatives : List (String × Decoder α)

namespace Tagged

/-- The alternative that a tag names: by its name, or if kept aside by its index. -/
def alternative (t : Tagged α) : Decoder (Decoder α) := fun mode tree =>
  match mode, tree with
  | _, .string name => named t.alternatives name
  | .kept, .number (.integer (.ofNat n) bounds) =>
    match t.alternatives[n]? with
    | some (_, decode) => .ok decode
    | none => .error (.wrongValue (.number (.integer (.ofNat n) bounds))
        ("variant index 0 <= i < " ++ toString t.alternatives.length))
  | _, tree => mismatch "variant identifier" tree

/-- Decodes the tag among the members of an object, then the rest of the object by it. -/
def members (t : Tagged α) (mode : Mode) (entries : List (String × Tree)) :
    Except Fault α := do
  let f : Fields := ⟨t.title, [t.tag], mode, .members entries⟩
  let (decode, kept) ← (Prod.mk <$> f.required t.tag t.alternative <*> f.keep).result
  decode .kept (.object kept)

/-- Decodes a value that stands on its own: an object, or an array that begins with the
tag. -/
def decode (t : Tagged α) : Decoder α := fun mode tree =>
  match tree with
  | .object entries => t.members mode entries
  | .array [] => .error (.missingField t.tag)
  | .array (tag :: content) => do
    let decode ← t.alternative mode tag
    if Tree.readableItems content then decode .kept (.array content)
    else throw .unreadable
  | tree => mismatch t.title tree

end Tagged

end Flowgraph.Decode
