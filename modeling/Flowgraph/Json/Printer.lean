import Flowgraph.Tree

/-!
# Writing JSON text

A tree is written on one line (`compact`) or indented by two spaces (`pretty`). Both escape
quotes, backslashes and control characters and leave all other characters as they are.
-/

set_option autoImplicit false

namespace Flowgraph.Json

namespace Printer

/-- One of the sixteen hexadecimal digits, in lower case. -/
def hexDigit (n : Nat) : Char := Nat.digitChar (n % 16)

/-- A character inside quotes. -/
def character (c : Char) : List Char :=
  if c = '"' then ['\\', '"']
  else if c = '\\' then ['\\', '\\']
  else if c = '\n' then ['\\', 'n']
  else if c = '\r' then ['\\', 'r']
  else if c = '\t' then ['\\', 't']
  else if c = '\x08' then ['\\', 'b']
  else if c = '\x0c' then ['\\', 'f']
  else if c.toNat < 0x20 then
    ['\\', 'u', '0', '0', hexDigit (c.toNat / 16), hexDigit c.toNat]
  else [c]

/-- A string with its quotes. -/
def string (s : String) : List Char :=
  '"' :: s.toList.flatMap character ++ ['"']

/-- A leaf of a tree; the leaves without a value are written as `null`. -/
def leaf : Tree → List Char
  | .bool true => "true".toList
  | .bool false => "false".toList
  | .number n => n.text Number.layout
  | .string s => string s
  | _ => "null".toList

mutual

/-- A tree on one line. -/
def compact : Tree → List Char
  | .array items => '[' :: compactItems items ++ [']']
  | .object members => '{' :: compactMembers members ++ ['}']
  | tree => leaf tree

/-- Items separated by commas. -/
def compactItems : List Tree → List Char
  | [] => []
  | [item] => compact item
  | item :: rest => compact item ++ ',' :: compactItems rest

/-- Members separated by commas. -/
def compactMembers : List (String × Tree) → List Char
  | [] => []
  | [(key, item)] => string key ++ ':' :: compact item
  | (key, item) :: rest => string key ++ ':' :: compact item ++ ',' :: compactMembers rest

end

/-- A line break and the indentation of a level. -/
def newline (level : Nat) : List Char := '\n' :: List.replicate (2 * level) ' '

mutual

/-- A tree over several lines, at a level of indentation. -/
def pretty (level : Nat) : Tree → List Char
  | .array [] => ['[', ']']
  | .array items => '[' :: prettyItems (level + 1) items ++ newline level ++ [']']
  | .object [] => ['{', '}']
  | .object members => '{' :: prettyMembers (level + 1) members ++ newline level ++ ['}']
  | tree => leaf tree

/-- Items, each on lines of its own. -/
def prettyItems (level : Nat) : List Tree → List Char
  | [] => []
  | [item] => newline level ++ pretty level item
  | item :: rest => newline level ++ pretty level item ++ ',' :: prettyItems level rest

/-- Members, each on lines of its own. -/
def prettyMembers (level : Nat) : List (String × Tree) → List Char
  | [] => []
  | [(key, item)] => newline level ++ string key ++ ':' :: ' ' :: pretty level item
  | (key, item) :: rest =>
    newline level ++ string key ++ ':' :: ' ' :: pretty level item ++
      ',' :: prettyMembers level rest

end

end Printer

/-- The text of a tree on one line. -/
def compact (tree : Tree) : String := String.ofList (Printer.compact tree)

/-- The text of a tree over several lines. -/
def pretty (tree : Tree) : String := String.ofList (Printer.pretty 0 tree)

/-- The text of a value on one line. -/
def Value.text (v : Value) : String := compact (.ofValue v)

end Flowgraph.Json
