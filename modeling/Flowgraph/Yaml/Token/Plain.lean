import Flowgraph.Yaml.Token.Gap

/-!
# Plain scalars

A scalar without quotes ends at a comment, at a colon in front of a space, at a line that is
not indented further than the block around it, and among the parts of a flow collection at
the marks of one.
-/

set_option autoImplicit false

namespace Flowgraph.Yaml.Plain

/-- The marks of flow collections. -/
def isFlowMark (c : Char) : Bool := ",[]\x7b\x7d".toList.contains c

/-- Whether a plain scalar ends here within a word. -/
def ends (flow : Bool) : List Char → Bool
  | [] => true
  | ':' :: rest => endsWord rest
  | c :: _ => isSpace c || (flow && isFlowMark c)

/-- Whether a colon stands here that is followed by a mark it must not be followed by. -/
def isMisplaced (flow : Bool) : List Char → Bool
  | ':' :: c :: _ => flow && (isFlowMark c || c == '?')
  | _ => false

/-- Reads a word; the text so far stands latest first. -/
def word? (flow : Bool) : Nat → List Char → Cursor → Option (List Char × Cursor)
  | 0, done, c => some (done, c)
  | fuel + 1, done, c =>
    if isMisplaced flow c.rest then none
    else if ends flow c.rest then some (done, c)
    else word? flow fuel (c.rest.head?.toList ++ done) c.advance

/-- A plain scalar as it was read. -/
structure Result where
  text : List Char
  /-- Whether line breaks follow it. -/
  broken : Bool
  cursor : Cursor

/-- Reads words and the gaps between them; `floor` is the least column of the lines after
the first. -/
def words? (flow : Bool) (floor : Nat) : Nat → List Char → Gap → Cursor → Option Result
  | 0, _, _, _ => none
  | fuel + 1, done, gap, c =>
    if c.atDocument || c.rest.head? == some '#' then some ⟨done, gap.broken, c⟩
    else do
      let (word, after) ← word? flow c.rest.length [] c
      let (done, gap) := if word.isEmpty then (done, gap) else (word ++ (gap.text ++ done), {})
      if after.rest.head?.any isSpace then
        let (gap, after) ← Gap.read? floor after.rest.length gap after
        if !flow && after.column < floor then return ⟨done, gap.broken, after⟩
        else words? flow floor fuel done gap after
      else return ⟨done, gap.broken, after⟩

/-- A plain scalar, and whether line breaks follow it. -/
def read? (flow : Bool) (floor : Nat) (c : Cursor) : Option (String × Bool × Cursor) :=
  (words? flow floor (c.rest.length + 1) [] {} c).map fun r =>
    (String.ofList r.text.reverse, r.broken, r.cursor)

end Flowgraph.Yaml.Plain
