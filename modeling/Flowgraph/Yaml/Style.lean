import Flowgraph.Yaml.Cursor
import Flowgraph.Yaml.Scalar

/-!
# Styles of scalars

A text is written plain if it can be and if it would be read back as itself. A text of several
lines is written as a literal block; other texts stand between single quotes, and texts with
characters that do not show, or with blanks next to line breaks, between double quotes.
-/

set_option autoImplicit false

namespace Flowgraph.Yaml

/-- The ways to write a text. -/
inductive Style where
  | plain
  | single
  | double
  | literal
  deriving DecidableEq, Repr

namespace Style

/-- Characters that show, line feeds included. -/
def isPrintable (c : Char) : Bool :=
  let n := c.toNat
  n == 0x0A || (0x20 ≤ n && n ≤ 0x7E) || (0xA0 ≤ n && n ≤ 0xFFFD && n != 0xFEFF) || 0x10000 ≤ n

/-- Whether a character of one kind comes right before one of another. -/
def meets (p q : Char → Bool) : List Char → Bool
  | a :: b :: rest => (p a && q b) || meets p q (b :: rest)
  | _ => false

/-- Whether some character has a property and the text after it another one. -/
def somewhere (p : Char → Bool) (q : List Char → Bool) : List Char → Bool
  | [] => false
  | c :: rest => (p c && q rest) || somewhere p q rest

/-- The characters that a plain scalar cannot begin with. -/
def isMark (c : Char) : Bool := "#,[]\x7b\x7d&*!|>'\"%@`".toList.contains c

/-- Whether a text would be taken for something other than a scalar. -/
def isMarked (text : List Char) : Bool :=
  text.take 3 == ['-', '-', '-'] || text.take 3 == ['.', '.', '.']
    || text.head?.any isMark
    || text.head?.any (fun c => c == '?' || c == '-') && endsWord text.tail
    || somewhere (· == ':') endsWord text
    || meets isSpace (· == '#') text

/-- Whether a text cannot be written without escapes. -/
def needsEscape (text : List Char) : Bool :=
  text.any (!isPrintable ·) || meets (· == ' ') isBreak text

/-- Whether a text can be written as a literal block. -/
def allowsLiteral (text : List Char) : Bool :=
  !needsEscape text && text.getLast? != some ' '

/-- Whether a text can stand between single quotes. -/
def allowsSingle (text : List Char) : Bool :=
  !needsEscape text && !meets isBreak (· == ' ') text

/-- Whether a text can stand by itself. -/
def allowsPlain (text : List Char) : Bool :=
  !needsEscape text && !text.any isBreak && text.head? != some ' ' && text.getLast? != some ' '
    && !isMarked text

/-- Whether a text that stands by itself is read back as itself. -/
def isUnambiguous (text : String) : Bool :=
  Scalar.meaning text = .text && !Scalar.isPadded text.toList

/-- The style of a text. -/
def ofText (text : String) : Style :=
  let cs := text.toList
  if cs.contains '\n' then if allowsLiteral cs then .literal else .double
  else if allowsPlain cs && isUnambiguous text then .plain
  else if allowsSingle cs then .single
  else .double

/-- Whether a text can be a key that is followed by its colon on the same line. -/
def allowsKey (text : String) : Bool := !text.toList.any isBreak && text.utf8ByteSize ≤ 128

end Style

end Flowgraph.Yaml
