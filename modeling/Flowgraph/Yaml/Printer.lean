import Flowgraph.Yaml.Style

/-!
# Writing YAML text

A tree is written in block style: an entry or item on lines of its own, indented by two
spaces under the entry around it, except that the items of a sequence stand at the column of
their key. Lines are never folded.
-/

set_option autoImplicit false

namespace Flowgraph.Yaml

namespace Printer

/-- Spaces up to a column. -/
def spaces (column : Nat) : List Char := List.replicate column ' '

/-! ### Scalars -/

/-- The letter of the escape for a character that has one. -/
def escapeLetter? (c : Char) : Option Char :=
  match c.toNat with
  | 0x00 => some '0'
  | 0x07 => some 'a'
  | 0x08 => some 'b'
  | 0x09 => some 't'
  | 0x0A => some 'n'
  | 0x0B => some 'v'
  | 0x0C => some 'f'
  | 0x0D => some 'r'
  | 0x1B => some 'e'
  | 0x22 => some '"'
  | 0x5C => some '\\'
  | 0x85 => some 'N'
  | 0x2028 => some 'L'
  | 0x2029 => some 'P'
  | _ => none

/-- Upper-case hexadecimal digits, at least as many as given. -/
def hex (width n : Nat) : List Char :=
  let digits := (Nat.toDigits 16 n).map Char.toUpper
  List.replicate (width - digits.length) '0' ++ digits

/-- A character between double quotes. -/
def doubleChar (c : Char) : List Char :=
  match escapeLetter? c with
  | some letter => ['\\', letter]
  | none =>
    if Style.isPrintable c then [c]
    else if c.toNat ≤ 0xFF then '\\' :: 'x' :: hex 2 c.toNat
    else if c.toNat ≤ 0xFFFF then '\\' :: 'u' :: hex 4 c.toNat
    else '\\' :: 'U' :: hex 8 c.toNat

/-- A text with every line but the first indented up to a column. -/
def indentLines (column : Nat) : List Char → List Char
  | [] => []
  | c :: rest =>
    if isBreak c ∧ ¬rest.head?.any isBreak then c :: spaces column ++ indentLines column rest
    else c :: indentLines column rest

/-- The marks of a literal block: one for its indentation if that would not show, and one for
the line breaks at its end. -/
def literalMarks (text : List Char) : List Char :=
  (if text.head?.any (fun c => c == ' ' || isBreak c) then ['2'] else []) ++
    match text.reverse with
    | a :: b :: _ => if isBreak a then (if isBreak b then ['+'] else []) else ['-']
    | [a] => if isBreak a then ['+'] else ['-']
    | [] => ['-']

/-- The lines of a literal block, with `fresh` at the start of a line. -/
def literalLines (column : Nat) : Bool → List Char → List Char
  | _, [] => []
  | fresh, c :: rest =>
    if isBreak c then c :: literalLines column true rest
    else (if fresh then spaces column else []) ++ c :: literalLines column false rest

/-- A text, with lines after the first indented up to a column. -/
def text (column : Nat) (s : String) : List Char :=
  let cs := s.toList
  match Style.ofText s with
  | .plain => cs
  | .single =>
    let doubled := cs.flatMap fun c => if c = '\'' then ['\'', '\''] else [c]
    '\'' :: indentLines column doubled ++ ['\'']
  | .double => '"' :: cs.flatMap doubleChar ++ ['"']
  | .literal => '|' :: literalMarks cs ++ '\n' :: literalLines column true cs

/-- How floats are written. -/
def layout : Decimal.Layout := ⟨some (-5), some 16, true, false⟩

/-- A tree without parts. -/
def leaf (column : Nat) : Tree → List Char
  | .bool b => (if b then "true" else "false").toList
  | .number n => n.text layout
  | .string s => text column s
  | .array _ => "[]".toList
  | .object _ => ['\x7b', '\x7d']
  | _ => "null".toList

/-- A text with the end of its line, which a literal block may bring itself. -/
def endLine (text : List Char) : List Char :=
  if text.getLast?.any isBreak then text else text ++ ['\n']

/-! ### Collections -/

/-- What precedes the value at a key. -/
def key (column : Nat) (name : String) : List Char :=
  if Style.allowsKey name then text (column + 2) name ++ [':']
  else '?' :: ' ' :: endLine (text (column + 2) name) ++ spaces column ++ [':']

mutual

/-- The part of a collection after its mark, with the collection at a column. -/
def part (column : Nat) : Tree → List Char
  | .array (item :: rest) =>
    ' ' :: '-' :: part (column + 2) item ++ items (column + 2) rest
  | .object ((name, item) :: rest) =>
    ' ' :: key (column + 2) name ++ value (column + 2) name item ++ entries (column + 2) rest
  | tree => ' ' :: endLine (leaf (column + 2) tree)

/-- The value at a key, after the colon, with its mapping at a column. -/
def value (column : Nat) (name : String) : Tree → List Char
  | .array (item :: rest) =>
    if Style.allowsKey name then
      '\n' :: spaces column ++ '-' :: part column item ++ items column rest
    else part column (.array (item :: rest))
  | .object ((inner, item) :: rest) =>
    if Style.allowsKey name then
      '\n' :: spaces (column + 2) ++ key (column + 2) inner ++ value (column + 2) inner item
        ++ entries (column + 2) rest
    else part column (.object ((inner, item) :: rest))
  | tree => ' ' :: endLine (leaf (column + 2) tree)

/-- The items of a sequence at a column. -/
def items (column : Nat) : List Tree → List Char
  | [] => []
  | item :: rest => spaces column ++ '-' :: part column item ++ items column rest

/-- The entries of a mapping at a column. -/
def entries (column : Nat) : List (String × Tree) → List Char
  | [] => []
  | (name, item) :: rest =>
    spaces column ++ key column name ++ value column name item ++ entries column rest

end

/-- A tree as a document. -/
def document : Tree → List Char
  | .array (item :: rest) => items 0 (item :: rest)
  | .object (member :: rest) => entries 0 (member :: rest)
  | tree => endLine (leaf 0 tree)

end Printer

/-- The text of a tree as a document. -/
def write (tree : Tree) : String := String.ofList (Printer.document tree)

end Flowgraph.Yaml
