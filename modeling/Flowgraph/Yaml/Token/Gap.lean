import Flowgraph.Yaml.Cursor

/-!
# Gaps between words

A scalar outside a block may go on over several lines. The `Gap` between two of its words
counts as it stands if it lies within a line. Otherwise the blanks in it do not count; a
single line break counts as a space, and of several breaks the first one does not count.
-/

set_option autoImplicit false

namespace Flowgraph.Yaml

/-- The blanks and line breaks between two words. -/
structure Gap where
  /-- The blanks up to the first line break, latest first. -/
  blanks : List Char := []
  /-- Whether there is a line break, be it an escaped one. -/
  broken : Bool := false
  /-- The first line break that is not escaped. -/
  first : Option Char := none
  /-- The line breaks after it, latest first. -/
  more : List Char := []

namespace Gap

/-- Adds a blank. -/
def blank (g : Gap) (c : Char) : Gap := if g.broken then g else { g with blanks := c :: g.blanks }

/-- Adds a line break. -/
def line (g : Gap) (c : Char) : Gap :=
  if g.broken then { g with more := c :: g.more } else { g with broken := true, first := some c }

/-- What a gap counts as, in front of the text after it, both latest first. -/
def text (g : Gap) : List Char :=
  if !g.broken then g.blanks
  else match g.first with
    | some '\n' => if g.more.isEmpty then [' '] else g.more
    | first => g.more ++ first.toList

/-- Reads a gap. On a line after the first, a tab left of `floor` is an error. -/
def read? (floor : Nat) : Nat → Gap → Cursor → Option (Gap × Cursor)
  | 0, g, c => some (g, c)
  | fuel + 1, g, c =>
    match c.rest with
    | [] => some (g, c)
    | b :: _ =>
      if isBlank b then
        if g.broken && c.column < floor && b == '\t' then none
        else read? floor fuel (g.blank b) c.advance
      else if isBreak b then
        let (b, c) := c.newline
        read? floor fuel (g.line b) c
      else some (g, c)

end Gap

end Flowgraph.Yaml
