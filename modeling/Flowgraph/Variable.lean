import Flowgraph.Definition.Basic

/-!
# Variables

A run keeps its variables in a `Store`. An argument refers to a variable if it is a text
that consists of the reference `${name}` and nothing else; before a step is done, such
arguments are replaced by the value of the variable, once and not recursively. A reference
to a variable that is not set drops the argument.
-/

set_option autoImplicit false

namespace Flowgraph

/-- The variables of a run in ascending order of their names. -/
abbrev Store := List (String × Json.Value)

namespace Variable

/-- The name between `${` and the `}` at the end of a text; no `}` may be in it. -/
def name? (text : List Char) : Option (List Char) :=
  match text with
  | '$' :: '{' :: rest =>
    if rest.getLast? = some '}' ∧ '}' ∉ rest.dropLast then some rest.dropLast else none
  | _ => none

/-- The variable that a value refers to. -/
def reference? (value : Json.Value) : Option String :=
  value.string?.bind fun text => (name? text.toList).map String.ofList

/-- What an argument stands for: itself, or the value of the variable it refers to. -/
def value? (store : Store) (argument : Json.Value) : Option Json.Value :=
  match reference? argument with
  | some name => Assoc.get? name store
  | none => some argument

end Variable

/-- The arguments with the values that they stand for. -/
def Arguments.resolve (arguments : Arguments) (store : Store) : Store :=
  arguments.foldl (fun resolved (name, argument) =>
    match Variable.value? store argument with
    | some value => Assoc.insert name value resolved
    | none => resolved) []

end Flowgraph
