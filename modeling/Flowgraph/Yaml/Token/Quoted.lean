import Flowgraph.Text.Basic
import Flowgraph.Yaml.Token.Gap

/-!
# Quoted scalars

Between single quotes a quote is written twice and nothing else is special. Between double
quotes a backslash begins an escape; one at the end of a line joins the line to the next one.
-/

set_option autoImplicit false

namespace Flowgraph.Yaml.Quoted

/-- The character of a one-letter escape. -/
def escape? : Char → Option Char
  | '0' => some '\x00'
  | 'a' => some '\x07'
  | 'b' => some '\x08'
  | 't' | '\t' => some '\t'
  | 'n' => some '\n'
  | 'v' => some '\x0b'
  | 'f' => some '\x0c'
  | 'r' => some '\r'
  | 'e' => some '\x1b'
  | ' ' => some ' '
  | '"' => some '"'
  | '/' => some '/'
  | '\\' => some '\\'
  | 'N' => some '\u0085'
  | '_' => some '\u00A0'
  | 'L' => some '\u2028'
  | 'P' => some '\u2029'
  | _ => none

/-- How many hexadecimal digits follow the letter of an escape by code. -/
def codeLength? : Char → Option Nat
  | 'x' => some 2
  | 'u' => some 4
  | 'U' => some 8
  | _ => none

/-- The character with a code. -/
def ofCode? (n : Nat) : Option Char :=
  if n.isValidChar then some (Char.ofNat n) else none

/-- The character of an escape after its backslash. -/
def escaped? (c : Cursor) : Option (Char × Cursor) :=
  match c.rest with
  | [] => none
  | letter :: rest =>
    match codeLength? letter with
    | some count =>
      if rest.length < count then none
      else do
        let code ← Text.ofDigits? 16 (rest.take count)
        return (← ofCode? code, c.skip (count + 1))
    | none => (escape? letter).map (·, c.advance)

/-- Reads a word up to a gap or the closing quote. The text so far stands latest first; the
flag tells that the word ends in an escaped line break. -/
def word? (quote : Char) : Nat → List Char → Cursor → Option (List Char × Bool × Cursor)
  | 0, _, _ => none
  | fuel + 1, done, c =>
    match c.rest with
    | [] => some (done, false, c)
    | a :: rest =>
      if isSpace a then some (done, false, c)
      else if a = quote then
        if quote = '\'' ∧ rest.head? = some '\'' then word? quote fuel ('\'' :: done) (c.skip 2)
        else some (done, false, c)
      else if a = '\\' ∧ quote = '"' then
        if rest.head?.any isBreak then some (done, true, c.advance.newline.2)
        else do
          let (e, c) ← escaped? c.advance
          word? quote fuel (e :: done) c
      else word? quote fuel (a :: done) c.advance

/-- Reads words and gaps up to the closing quote. -/
def words? (quote : Char) : Nat → List Char → Cursor → Option (List Char × Cursor)
  | 0, _, _ => none
  | fuel + 1, done, c =>
    if c.atDocument then none
    else do
      let (done, joined, c) ← word? quote (c.rest.length + 1) done c
      match c.rest with
      | [] => none
      | a :: _ =>
        if a = quote then return (done, c.advance)
        else
          let (g, c) ← Gap.read? 0 c.rest.length { broken := joined } c
          words? quote fuel (g.text ++ done) c

/-- A scalar between quotes. -/
def read? (quote : Char) (c : Cursor) : Option (String × Cursor) := do
  let c := c.advance
  let (text, c) ← words? quote (c.rest.length + 1) [] c
  return (String.ofList text.reverse, c)

end Flowgraph.Yaml.Quoted
