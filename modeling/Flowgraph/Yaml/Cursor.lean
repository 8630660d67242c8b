/-!
# Places in a YAML text

The classes of characters that structure a YAML text, and a `Cursor`: what is left of the
text, and where in the text it begins. Indentation is told by the column, and a key in front
of a colon has to begin on the line of the colon, less than 1024 characters before it.
-/

set_option autoImplicit false

namespace Flowgraph.Yaml

/-- The characters that may stand in a text: the printable ones, tabs and line breaks. -/
def isAllowed (c : Char) : Bool :=
  let n := c.toNat
  n == 0x09 || n == 0x0A || n == 0x0D || (0x20 ≤ n && n ≤ 0x7E) || n == 0x85
    || (0xA0 ≤ n && n ≤ 0xFFFD) || 0x10000 ≤ n

/-- Line breaks. -/
def isBreak (c : Char) : Bool :=
  c == '\n' || c == '\r' || c == '\u0085' || c == '\u2028' || c == '\u2029'

/-- Blanks within a line. -/
def isBlank (c : Char) : Bool := c == ' ' || c == '\t'

/-- Characters that separate words. -/
def isSpace (c : Char) : Bool := isBlank c || isBreak c

/-- Whether a text begins with a space, or is empty. -/
def endsWord (text : List Char) : Bool := text.head?.all isSpace

/-- Characters of the names of anchors and tags. -/
def isNameChar (c : Char) : Bool := c.isAlphanum || c == '-' || c == '_'

/-- The mark that some programs put at the start of a text. -/
def byteOrderMark : Char := '\uFEFF'

/-- What is left of a text, and where it begins. -/
structure Cursor where
  rest : List Char
  index : Nat := 0
  line : Nat := 0
  column : Nat := 0

namespace Cursor

/-- Goes past one character of a line. -/
def advance (c : Cursor) : Cursor :=
  { c with rest := c.rest.tail, index := c.index + 1, column := c.column + 1 }

/-- Goes past some characters of a line. -/
def skip (c : Cursor) (count : Nat) : Cursor :=
  { c with rest := c.rest.drop count, index := c.index + count, column := c.column + count }

/-- Goes past the characters of a line that have a property, and gives them. -/
def span (c : Cursor) (p : Char → Bool) : List Char × Cursor :=
  let taken := c.rest.takeWhile p
  (taken, c.skip taken.length)

/-- Goes past the characters of a line that have a property. -/
def drop (c : Cursor) (p : Char → Bool) : Cursor := (c.span p).2

/-- Goes past a line break, and gives what it counts as. -/
def newline (c : Cursor) : Char × Cursor :=
  match c.rest with
  | '\r' :: '\n' :: rest => ('\n', ⟨rest, c.index + 2, c.line + 1, 0⟩)
  | b :: rest =>
    (if b == '\r' || b == '\u0085' then '\n' else b, ⟨rest, c.index + 1, c.line + 1, 0⟩)
  | [] => ('\n', c)

/-- Goes past a line break if there is one. -/
def newline? (c : Cursor) : Cursor :=
  if c.rest.head?.any isBreak then c.newline.2 else c

/-- Goes to the end of a line if a comment starts here. -/
def comment (c : Cursor) : Cursor :=
  if c.rest.head? = some '#' then c.drop (!isBreak ·) else c

/-- Goes past blanks and a comment, and past the end of the line, which has to follow. -/
def endLine? (c : Cursor) : Option Cursor :=
  let c := (c.drop isBlank).comment
  if c.rest.head?.all isBreak then some c.newline? else none

/-- Whether a line begins here with a word that is reserved for the bounds of a document. -/
def atBound (c : Cursor) (word : String) : Bool :=
  c.column == 0 && c.rest.take 3 == word.toList && endsWord (c.rest.drop 3)

/-- Whether a document begins or ends here. -/
def atDocument (c : Cursor) : Bool := c.atBound "---" || c.atBound "..."

end Cursor

end Flowgraph.Yaml
