import Flowgraph.Assoc
import Flowgraph.Json.Number

/-!
# JSON values

The dynamic values that workflows pass around: arguments, state, results. The members of an
object are kept in ascending order of their keys, each key once; `Value.Ordered` says so.

Equality comes in two strengths: `=`, and `same`, which also equates the two float zeros.
-/

set_option autoImplicit false

namespace Flowgraph.Json

/-- A JSON value. -/
inductive Value where
  | null
  | bool (value : Bool)
  | number (value : Number)
  | string (value : String)
  | array (items : List Value)
  | object (members : List (String × Value))
  deriving Inhabited

namespace Value

/-! ### Equality is decidable -/

mutual

/-- Decides whether two values are equal. -/
def decEq : (a b : Value) → Decidable (a = b)
  | .null, .null => isTrue rfl
  | .bool a, .bool b =>
    if h : a = b then isTrue (by rw [h]) else isFalse (by intro e; cases e; exact h rfl)
  | .number a, .number b =>
    if h : a = b then isTrue (by rw [h]) else isFalse (by intro e; cases e; exact h rfl)
  | .string a, .string b =>
    if h : a = b then isTrue (by rw [h]) else isFalse (by intro e; cases e; exact h rfl)
  | .array a, .array b =>
    match decEqItems a b with
    | isTrue h => isTrue (by rw [h])
    | isFalse h => isFalse (by intro e; cases e; exact h rfl)
  | .object a, .object b =>
    match decEqMembers a b with
    | isTrue h => isTrue (by rw [h])
    | isFalse h => isFalse (by intro e; cases e; exact h rfl)
  | .null, .bool _ | .null, .number _ | .null, .string _ | .null, .array _
  | .null, .object _ | .bool _, .null | .bool _, .number _ | .bool _, .string _
  | .bool _, .array _ | .bool _, .object _ | .number _, .null | .number _, .bool _
  | .number _, .string _ | .number _, .array _ | .number _, .object _ | .string _, .null
  | .string _, .bool _ | .string _, .number _ | .string _, .array _ | .string _, .object _
  | .array _, .null | .array _, .bool _ | .array _, .number _ | .array _, .string _
  | .array _, .object _ | .object _, .null | .object _, .bool _ | .object _, .number _
  | .object _, .string _ | .object _, .array _ => isFalse (by intro e; cases e)

/-- Decides whether two lists of values are equal. -/
def decEqItems : (a b : List Value) → Decidable (a = b)
  | [], [] => isTrue rfl
  | [], _ :: _ | _ :: _, [] => isFalse (by intro e; cases e)
  | a :: as, b :: bs =>
    match decEq a b, decEqItems as bs with
    | isTrue h, isTrue t => isTrue (by rw [h, t])
    | isFalse h, _ => isFalse (by intro e; cases e; exact h rfl)
    | _, isFalse t => isFalse (by intro e; cases e; exact t rfl)

/-- Decides whether two lists of members are equal. -/
def decEqMembers : (a b : List (String × Value)) → Decidable (a = b)
  | [], [] => isTrue rfl
  | [], _ :: _ | _ :: _, [] => isFalse (by intro e; cases e)
  | (j, a) :: as, (k, b) :: bs =>
    if hk : j = k then
      match decEq a b, decEqMembers as bs with
      | isTrue h, isTrue t => isTrue (by rw [hk, h, t])
      | isFalse h, _ => isFalse (by intro e; cases e; exact h rfl)
      | _, isFalse t => isFalse (by intro e; cases e; exact t rfl)
    else isFalse (by intro e; cases e; exact hk rfl)

end

instance : DecidableEq Value := decEq

/-! ### Equality of values as numbers go -/

mutual

/-- Equality of values, with the two float zeros equal. -/
def same : Value → Value → Bool
  | .null, .null => true
  | .bool a, .bool b => a == b
  | .number a, .number b => a.same b
  | .string a, .string b => a == b
  | .array a, .array b => sameItems a b
  | .object a, .object b => sameMembers a b
  | _, _ => false

/-- `same` for the items of arrays. -/
def sameItems : List Value → List Value → Bool
  | [], [] => true
  | a :: as, b :: bs => same a b && sameItems as bs
  | _, _ => false

/-- `same` for the members of objects. -/
def sameMembers : List (String × Value) → List (String × Value) → Bool
  | [], [] => true
  | (j, a) :: as, (k, b) :: bs => j == k && same a b && sameMembers as bs
  | _, _ => false

end

example : same (.object [("on", .bool true)]) (.object [("on", .bool false)]) = false := by decide

/-! ### Order of members -/

mutual

/-- The members of every object inside are in ascending order of keys. -/
def Ordered : Value → Prop
  | .array items => OrderedItems items
  | .object members => (members.map (·.1)).Pairwise (· < ·) ∧ OrderedMembers members
  | _ => True

/-- `Ordered` for the items of an array. -/
def OrderedItems : List Value → Prop
  | [] => True
  | v :: rest => Ordered v ∧ OrderedItems rest

/-- `Ordered` for the members of an object. -/
def OrderedMembers : List (String × Value) → Prop
  | [] => True
  | (_, v) :: rest => Ordered v ∧ OrderedMembers rest

end

/-- The text of a string value. -/
def string? : Value → Option String
  | .string s => some s
  | _ => none

/-- The integer `n` as a value. -/
def ofInt (n : Int) : Value := .number (.ofInt n)

end Value

end Flowgraph.Json
