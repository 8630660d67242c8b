import Flowgraph.Yaml.Token.Block
import Flowgraph.Yaml.Token.Layout
import Flowgraph.Yaml.Token.Name
import Flowgraph.Yaml.Token.Plain
import Flowgraph.Yaml.Token.Quoted

/-!
# The tokens of a text

`Token.ofText?` takes a text to its tokens, one `Layout.step?` per token.
-/

set_option autoImplicit false

namespace Flowgraph.Yaml

namespace Layout

/-- Goes past blanks, comments and line breaks. A tab does not count as a blank where the
column of a key could depend on it. -/
def skipSpace : Nat → Layout → Layout
  | 0, l => l
  | fuel + 1, l =>
    let c := l.cursor
    let c := if c.column = 0 ∧ c.rest.head? = some byteOrderMark then c.advance else c
    let c := (c.drop fun a => a == ' ' || (a == '\t' && (l.inFlow || !l.keyAllowed))).comment
    if c.rest.head?.any isBreak then
      skipSpace fuel { l with cursor := c.newline.2, keyAllowed := l.keyAllowed || !l.inFlow }
    else { l with cursor := c }

/-- Whether a plain scalar can begin here. -/
def beginsPlain (flow : Bool) : List Char → Bool
  | [] => false
  | '-' :: rest => !rest.head?.any isBlank
  | '?' :: rest => !flow && !endsWord rest
  | ':' :: rest => !flow && !endsWord rest
  | c :: _ => !isSpace c && !",[]\x7b\x7d#&*!|>'\"%@`".toList.contains c

/-- A plain scalar. -/
def plain? (l : Layout) : Option Layout := do
  let (text, broken, c) ← Plain.read? l.inFlow l.floor l.cursor
  let l ← l.word? (.scalar true text) c
  return { l with keyAllowed := broken }

/-- A block scalar. -/
def block? (l : Layout) (literal : Bool) : Option Layout := do
  let (text, c) ← Block.read? literal l.blocks.head? l.cursor
  let l ← l.dropCandidate?
  return { l with found := .scalar false text :: l.found, cursor := c, keyAllowed := true }

/-- The token that begins with the character of the cursor. -/
def token? (l : Layout) : Option Layout :=
  let c := l.cursor
  if c.column = 0 ∧ c.rest.head? = some '%' then do
    let (token, c) ← Token.directive? c.advance
    l.bound? token c
  else if c.atBound "---" then l.bound? .documentStart (c.skip 3)
  else if c.atBound "..." then l.bound? .documentEnd (c.skip 3)
  else match c.rest with
    | '[' :: _ => l.openFlow? .flowSequence
    | '{' :: _ => l.openFlow? .flowMapping
    | ']' :: _ => l.closeFlow? .flowSequenceEnd
    | '}' :: _ => l.closeFlow? .flowMappingEnd
    | ',' :: _ => l.comma?
    | '*' :: _ => do
      let (name, c) ← Token.name? c.advance
      l.word? (.alias name) c
    | '&' :: _ => do
      let (name, c) ← Token.name? c.advance
      l.word? (.anchor name) c
    | '!' :: _ => do
      let (token, c) ← Token.tag? l.inFlow c
      l.word? token c
    | '\'' :: _ => do
      let (text, c) ← Quoted.read? '\'' c
      l.word? (.scalar false text) c
    | '"' :: _ => do
      let (text, c) ← Quoted.read? '"' c
      l.word? (.scalar false text) c
    | a :: rest =>
      if a = '-' ∧ endsWord rest then l.item?
      else if a = '?' ∧ (l.inFlow ∨ endsWord rest) then l.key?
      else if a = ':' ∧ (l.inFlow ∨ endsWord rest) then l.value?
      else if (a = '|' ∨ a = '>') ∧ !l.inFlow then l.block? (a == '|')
      else if beginsPlain l.inFlow c.rest then l.plain?
      else none
    | [] => none

/-- The end of the text. -/
def finish? (l : Layout) : Option (List Token) :=
  (l.closeBlocks fun _ => true).dropCandidate?.map (·.found.reverse)

/-- Goes on to the next token or to the end of the text. -/
def step? (l : Layout) : Option Layout := do
  let l ← (l.skipSpace (l.cursor.rest.length + 1)).dropStale?
  return l.closeBlocks (l.cursor.column < ·)

/-- The tokens up to the end of the text. -/
def run? : Nat → Layout → Option (List Token)
  | 0, _ => none
  | fuel + 1, l => do
    let l ← l.step?
    if l.cursor.rest.isEmpty then l.finish? else run? fuel (← l.token?)

end Layout

/-- The tokens of a text. -/
def Token.ofText? (text : String) : Option (List Token) :=
  let cs := text.toList
  if cs.all isAllowed then Layout.run? (cs.length + 1) { cursor := { rest := cs } } else none

end Flowgraph.Yaml
