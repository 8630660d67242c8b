import Flowgraph.Decimal.Basic
import Flowgraph.Text.Basic
import Flowgraph.Yaml.Cursor
import Flowgraph.Yaml.Token.Basic

/-!
# Names, tags and directives

How the names of anchors and aliases, tags and directives are written.
-/

set_option autoImplicit false

namespace Flowgraph.Yaml.Token

/-! ### Anchors and aliases -/

/-- Whether the name of an anchor may end in front of a text. -/
def endsName (text : List Char) : Bool :=
  endsWord text || text.head?.any fun c => "?:,]\x7d%@`".toList.contains c

/-- The name of an anchor or alias after its mark. -/
def name? (c : Cursor) : Option (String × Cursor) :=
  let (name, c) := c.span isNameChar
  if !name.isEmpty && endsName c.rest then some (String.ofList name, c) else none

/-! ### Tags -/

/-- Characters of a tag; in tags that stand in full also the marks of flow collections. -/
def isTagChar (full : Bool) (c : Char) : Bool :=
  isNameChar c || ";/?:@&=+$.%!~*'()".toList.contains c || (full && ",[]".toList.contains c)

/-- A byte written as a percent sign and two hexadecimal digits. -/
def byte? : List Char → Option (Nat × List Char)
  | '%' :: a :: b :: rest => (Text.ofDigits? 16 [a, b]).map (·, rest)
  | _ => none

/-- How many bytes follow the first byte of a character. -/
def continuation? (first : Nat) : Option Nat :=
  if first < 0x80 then some 0
  else if first / 0x20 = 0x6 then some 1
  else if first / 0x10 = 0xE then some 2
  else if first / 0x08 = 0x1E then some 3
  else none

/-- Further bytes of a character. -/
def bytes? : Nat → List Char → Option (List Char)
  | 0, text => some text
  | count + 1, text => do
    let (byte, rest) ← byte? text
    if byte / 0x40 = 0x2 then bytes? count rest else none

/-- The text of a tag with its escapes resolved. An escape of more than one byte counts as
one character that no known tag has. -/
def tagText? : Nat → List Char → Option (List Char)
  | 0, _ => none
  | _, [] => some []
  | fuel + 1, '%' :: rest => do
    let (first, more) ← byte? ('%' :: rest)
    let count ← continuation? first
    let more ← bytes? count more
    let text ← tagText? fuel more
    return (if count = 0 then Char.ofNat first else '\uFFFD') :: text
  | fuel + 1, c :: rest => (tagText? fuel rest).map (c :: ·)

/-- The characters of a tag. -/
def tagChars? (full : Bool) (c : Cursor) : Option (List Char × Cursor) :=
  let (text, c) := c.span (isTagChar full)
  (tagText? (text.length + 1) text).map (·, c)

/-- An exclamation mark, a name, and another exclamation mark if there is one. -/
def tagHandle? (c : Cursor) : Option (List Char × Cursor) :=
  match c.rest with
  | '!' :: _ =>
    let (name, c) := c.advance.span isNameChar
    if c.rest.head? = some '!' then some ('!' :: name ++ ['!'], c.advance)
    else some ('!' :: name, c)
  | _ => none

/-- A tag between angle brackets after its exclamation mark and bracket. -/
def fullTag? (c : Cursor) : Option (Token × Cursor) := do
  let (text, c) ← tagChars? true c
  if text.isEmpty ∨ c.rest.head? ≠ some '>' then none
  else some (.tag "" (String.ofList text), c.advance)

/-- A tag that begins with a handle. -/
def shortTag? (c : Cursor) : Option (Token × Cursor) := do
  let (handle, c) ← tagHandle? c
  let (text, c) ← tagChars? false c
  if handle.length ≠ 1 ∧ handle.getLast? = some '!' then
    if text.isEmpty then none
    else some (.tag (String.ofList handle) (String.ofList text), c)
  else
    let text := handle.tail ++ text
    if text.isEmpty then some (.tag "" "!", c)
    else some (.tag "!" (String.ofList text), c)

/-- A tag; `flow` tells whether a comma may follow it. -/
def tag? (flow : Bool) (c : Cursor) : Option (Token × Cursor) := do
  let (token, c) ← match c.rest with
    | _ :: '<' :: _ => fullTag? (c.skip 2)
    | _ => shortTag? c
  if endsWord c.rest || (flow && c.rest.head? == some ',') then some (token, c) else none

/-! ### Directives -/

/-- A number of at most nine digits. -/
def versionNumber? (c : Cursor) : Option (Nat × Cursor) :=
  let (digits, c) := c.span Char.isDigit
  if digits.isEmpty ∨ 9 < digits.length then none
  else some (Decimal.ofDigits digits, c)

/-- The numbers of the version of the format. -/
def version? (c : Cursor) : Option (Token × Cursor) := do
  let (major, c) ← versionNumber? c
  if c.rest.head? = some '.' then
    let (minor, c) ← versionNumber? c.advance
    return (.version major minor, c)
  else none

/-- A handle and what it stands for. -/
def shorthand? (c : Cursor) : Option (Token × Cursor) := do
  let (handle, c) ← tagHandle? c
  if handle.getLast? ≠ some '!' ∨ !c.rest.head?.any isBlank then none
  else
    let (text, c) ← tagChars? true (c.drop isBlank)
    if text.isEmpty ∨ !endsWord c.rest then none
    else some (.shorthand (String.ofList handle) (String.ofList text), c)

/-- A directive after its percent sign, up to the end of its line. -/
def directive? (c : Cursor) : Option (Token × Cursor) := do
  let (name, c) := c.span isNameChar
  if name.isEmpty ∨ !endsWord c.rest then none
  else
    let c := c.drop isBlank
    let (token, c) ← match String.ofList name with
      | "YAML" => version? c
      | "TAG" => shorthand? c
      | _ => none
    return (token, ← c.endLine?)

end Flowgraph.Yaml.Token
