import Flowgraph.Variable

/-!
# Conditions

A condition compares a variable of the run with a value. Numbers are compared as binary
numbers, so that an integer equals the float of the same value; apart from that only values
of the same type are equal, and only two numbers or two texts have an order. A condition
whose operands make no sense does not hold.
-/

set_option autoImplicit false

namespace Flowgraph

namespace Condition

/-- The ways of comparing a variable with a value. -/
inductive Operator where
  | equals
  | notEquals
  | greaterThan
  | lessThan
  | exists
  deriving DecidableEq

namespace Operator

/-- Every operator, in the order of listings. -/
def all : List Operator := [.equals, .notEquals, .greaterThan, .lessThan, .exists]

/-- The written name of an operator. -/
def name : Operator → String
  | .equals => "equals"
  | .notEquals => "notEquals"
  | .greaterThan => "greaterThan"
  | .lessThan => "lessThan"
  | .exists => "exists"

/-- The operator with a name. -/
def ofName? (name : String) : Option Operator := all.find? (·.name = name)

/-- What is said about a name that no operator has. -/
def unknown (name : String) : String := "unknown condition operator '" ++ name ++ "'"

end Operator

/-- Equality of operands, either of which may be absent. -/
def equal : Option Json.Value → Option Json.Value → Bool
  | some (.number a), some (.number b) => a.toBinary64.same b.toBinary64
  | some a, some b => a.same b
  | none, none => true
  | _, _ => false

/-- Whether the first operand is less than the second. -/
def less : Option Json.Value → Option Json.Value → Bool
  | some (.number a), some (.number b) => a.toBinary64.lt b.toBinary64
  | some (.string a), some (.string b) => decide (a < b)
  | _, _ => false

/-- The text of an operand, if it is one and not empty. -/
def operand? (arguments : Arguments) (name : String) : Option String :=
  ((Assoc.get? name arguments).bind Json.Value.string?).filter (· ≠ "")

/-- Whether a comparison holds. -/
def compare (operator : Operator) (actual expected : Option Json.Value) : Bool :=
  match operator with
  | .equals => equal actual expected
  | .notEquals => !equal actual expected
  | .greaterThan => less expected actual
  | .lessThan => less actual expected
  | .exists => actual.isSome

/-- Whether the condition with these operands holds. -/
def holds (arguments : Arguments) (store : Store) : Bool :=
  match operand? arguments "variable", (operand? arguments "operator").bind Operator.ofName? with
  | some subject, some operator =>
    compare operator (Assoc.get? subject store) (Assoc.get? "value" arguments)
  | _, _ => false

/-- The operands of a condition. -/
def operands (subject : String) (operator : Operator) (value : Json.Value) : Arguments :=
  [("variable", .string subject), ("operator", .string operator.name), ("value", value)]

end Condition

end Flowgraph
