import Flowgraph.Yaml.Cursor

/-!
# Block scalars

The lines of a block scalar are those indented at least as far as its first line, or as its
header says. A literal one keeps its line breaks. In a folded one a line break between two
lines that do not begin with a blank counts as a space, or as nothing if empty lines follow.
The header also says what becomes of the line breaks at the end.
-/

set_option autoImplicit false

namespace Flowgraph.Yaml

/-- What becomes of the line breaks at the end of a block scalar. -/
inductive Chomping where
  | strip
  /-- Keeps the first one. -/
  | clip
  | keep
  deriving DecidableEq, Repr

namespace Block

/-- The mark of a chomping other than `clip`. -/
def chomping? (c : Cursor) : Option (Chomping × Cursor) :=
  match c.rest with
  | '-' :: _ => some (.strip, c.advance)
  | '+' :: _ => some (.keep, c.advance)
  | _ => none

/-- The digit that says how much further than its block a scalar is indented, or zero. -/
def increment? (c : Cursor) : Option (Nat × Cursor) :=
  match c.rest with
  | d :: _ =>
    if d = '0' then none
    else if d.isDigit then some (d.toNat - '0'.toNat, c.advance)
    else some (0, c)
  | [] => some (0, c)

/-- The header of a block scalar: a digit and a mark in either order, then the end of the
line. -/
def header? (c : Cursor) : Option (Chomping × Nat × Cursor) := do
  match chomping? c with
  | some (chomping, c) =>
    let (increment, c) ← increment? c
    return (chomping, increment, ← c.endLine?)
  | none =>
    let (increment, c) ← increment? c
    let (chomping, c) := (if increment = 0 then none else chomping? c).getD (.clip, c)
    return (chomping, increment, ← c.endLine?)

/-- What is read between the lines of a block scalar. -/
structure Interval where
  /-- The line breaks, latest first. -/
  breaks : List Char
  /-- The greatest column where a line begins. -/
  widest : Nat
  cursor : Cursor

/-- Reads indentation up to a column, or all of it, and empty lines. -/
def interval? (column : Option Nat) : Nat → Interval → Option Interval
  | 0, i => some i
  | fuel + 1, i =>
    let spaces := (i.cursor.rest.takeWhile (· == ' ')).length
    let c := i.cursor.skip (column.elim spaces fun n => min spaces (n - i.cursor.column))
    let widest := max i.widest c.column
    match c.rest with
    | [] => some ⟨i.breaks, widest, c⟩
    | b :: _ =>
      if b == '\t' && column.all (c.column < ·) then none
      else if isBreak b then
        let (b, c) := c.newline
        interval? column fuel ⟨b :: i.breaks, widest, c⟩
      else some ⟨i.breaks, widest, c⟩

/-- The text of a block scalar up to some line, and the breaks after that line. -/
structure Lines where
  /-- The text, latest first. -/
  text : List Char := []
  /-- The break that ends the last line, if any. -/
  ending : List Char := []
  /-- The breaks of the empty lines after it, latest first. -/
  breaks : List Char := []
  /-- Whether the last line begins with a blank. -/
  blank : Bool := false

/-- Adds a line. -/
def Lines.add (literal : Bool) (l : Lines) (line ending : List Char) (breaks : List Char) :
    Lines :=
  let blank := line.head?.any isBlank
  let joint :=
    if !literal && l.ending == ['\n'] && !l.blank && !blank then
      if l.breaks.isEmpty then [' '] else l.breaks
    else l.breaks ++ l.ending
  ⟨line.reverse ++ (joint ++ l.text), ending, breaks, blank⟩

/-- Reads the lines that are indented as far as a column. -/
def lines? (literal : Bool) (column : Nat) : Nat → Lines → Cursor → Option (Lines × Cursor)
  | 0, l, c => some (l, c)
  | fuel + 1, l, c =>
    if c.column ≠ column ∨ c.rest.isEmpty then some (l, c)
    else do
      let (line, c) := c.span (!isBreak ·)
      let (ending, c) := if c.rest.isEmpty then ([], c) else ([c.newline.1], c.newline.2)
      let i ← interval? column (c.rest.length + 1) ⟨[], 0, c⟩
      lines? literal column fuel (l.add literal line ending i.breaks) i.cursor

/-- The text of all lines. -/
def Lines.finish (l : Lines) : Chomping → List Char
  | .strip => l.text
  | .clip => l.ending ++ l.text
  | .keep => l.breaks ++ l.ending ++ l.text

/-- A block scalar; `parent` is the column of the block around it. -/
def read? (literal : Bool) (parent : Option Nat) (c : Cursor) : Option (String × Cursor) := do
  let (chomping, increment, c) ← header? c.advance
  let given := if increment = 0 then none else some (parent.getD 0 + increment)
  let i ← interval? given (c.rest.length + 1) ⟨[], 0, c⟩
  let column := given.getD (max i.widest (parent.elim 1 (· + 1)))
  let (l, c) ← lines? literal column (i.cursor.rest.length + 1) { breaks := i.breaks } i.cursor
  return (String.ofList (l.finish chomping).reverse, c)

end Block

end Flowgraph.Yaml
