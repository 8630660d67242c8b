import Flowgraph.Text.Quoted
import Flowgraph.Tree

/-!
# Faults of documents

Why a document does not have the expected shape. A fault names what was found and what was
expected in its place; `Fault.message` is its wording.
-/

set_option autoImplicit false

namespace Flowgraph.Decode

/-- A name between backticks. -/
def ticked (name : String) : String := "`" ++ name ++ "`"

/-- How a tree that stands in the wrong place is named. -/
def found : Tree → String
  | .null => "null"
  | .bool true => "boolean " ++ ticked "true"
  | .bool false => "boolean " ++ ticked "false"
  | .number (.integer n _) =>
    "integer " ++ ticked (String.ofList (Json.Number.integerText n))
  | .number (.float x) =>
    "floating point " ++ ticked (String.ofList (Json.Number.layout.write x))
  | .string s => "string " ++ Text.quoted s
  | .array _ => "sequence"
  | _ => "map"

/-- Why a document does not have the expected shape. -/
inductive Fault where
  /-- The text is not a document, or holds a part without a value. -/
  | unreadable
  /-- Something of another type stands where `expected` should. -/
  | wrongType (tree : Tree) (expected : String)
  /-- Something of the right type is out of the range of `expected`. -/
  | wrongValue (tree : Tree) (expected : String)
  /-- A sequence has the wrong number of items. -/
  | wrongLength (length : Nat) (expected : String)
  | missingField (name : String)
  | duplicateField (name : String)
  /-- The name of an alternative is not one of those known. -/
  | unknownVariant (name : String) (known : List String)
  /-- None of the alternatives of a type fits. -/
  | noVariant (type : String)
  /-- The text of a moment in time is wrong in the way described. -/
  | time (reason : String)

/-- The alternatives in the order known. -/
def alternatives : List String → String
  | [a] => ticked a
  | [a, b] => ticked a ++ " or " ++ ticked b
  | known => "one of " ++ ", ".intercalate (known.map ticked)

/-- The wording of a fault. -/
def Fault.message : Fault → String
  | .unreadable => "not a document"
  | .wrongType tree expected => "invalid type: " ++ found tree ++ ", expected " ++ expected
  | .wrongValue tree expected => "invalid value: " ++ found tree ++ ", expected " ++ expected
  | .wrongLength n expected => "invalid length " ++ toString n ++ ", expected " ++ expected
  | .missingField name => "missing field " ++ ticked name
  | .duplicateField name => "duplicate field " ++ ticked name
  | .unknownVariant name known =>
    "unknown variant " ++ ticked name ++ ", expected " ++ alternatives known
  | .noVariant type => "data did not match any variant of untagged enum " ++ type
  | .time reason => reason

end Flowgraph.Decode
