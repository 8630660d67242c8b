import Flowgraph.Decode.Variant
import Flowgraph.Json.Printer

/-!
# Results of activities

What an activity reports: whether it succeeded, the data it produced and the error it met.
Success and error are independent in a result that is read from a document; `ok` and
`failure` build the two usual ones.
-/

set_option autoImplicit false

namespace Flowgraph.Activity

open Decode

/-- What an activity reports. -/
structure Result where
  success : Bool := false
  data : Option Json.Value := none
  error : Option String := none
  deriving DecidableEq

namespace Result

/-- A success with data. -/
def ok (data : Json.Value) : Result := { success := true, data := some data }

/-- A failure with a message. -/
def failure (message : String) : Result := { error := some message }

/-- The message of a failure, or a placeholder. -/
def message (r : Result) : String := r.error.getD "undefined"

/-- The written form of a result. -/
def encode (r : Result) : Tree :=
  .object (("success", .bool r.success) :: Tree.member? "data" .ofValue r.data ++
    Tree.text? "error" r.error)

/-- Reads a result. -/
def decode : Decoder Result :=
  record "struct ActivityResult" ["success", "data", "error"] fun f =>
    Result.mk <$> f.required "success" bool <*> f.optional "data" value
      <*> f.optional "error" text

/-- A result as a value: the members that are present, in ascending order. -/
def toValue (r : Result) : Json.Value :=
  .object ((r.data.map fun data => ("data", data)).toList ++
    (r.error.map fun error => ("error", .string error)).toList ++
    [("success", .bool r.success)])

end Result

end Flowgraph.Activity
