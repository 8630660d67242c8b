import Flowgraph.Yaml.Cursor
import Flowgraph.Yaml.Token.Basic

/-!
# Indentation and keys

A `Layout` is the state between two tokens of a text: the tokens found, the columns of the
block collections that are open, and the places where a key may stand.

Whether something is a key shows only at the colon after it. So the place where it began is
kept as a `Candidate`, and the colon puts the `key` token, and the `blockMapping` token if
the key opens a mapping, in at that place. A candidate is given up at the end of its line or
when it is too long; it must not be given up if only a key can stand where it does, which is
at the column of a block mapping.
-/

set_option autoImplicit false

namespace Flowgraph.Yaml

/-- A place where a key may have begun. -/
structure Candidate where
  /-- How many tokens were found before it. -/
  position : Nat
  /-- Whether only a key can stand there. -/
  required : Bool
  index : Nat
  line : Nat
  column : Nat

/-- The state between two tokens. -/
structure Layout where
  cursor : Cursor
  /-- The tokens found, latest first. -/
  found : List Token := []
  /-- The columns of the open block collections, innermost first. -/
  blocks : List Nat := []
  /-- Whether a key may begin here that is followed by a colon on its line. -/
  keyAllowed : Bool := true
  /-- The candidate among the parts of the innermost flow collection, or of the blocks. -/
  candidate : Option Candidate := none
  /-- The candidates outside the flow collections that are open, innermost first. -/
  outer : List (Option Candidate) := []

namespace Layout

/-- Whether a flow collection is open. -/
def inFlow (l : Layout) : Bool := !l.outer.isEmpty

/-- The least column of a line that belongs to the innermost block. -/
def floor (l : Layout) : Nat := l.blocks.head?.elim 0 (· + 1)

/-- Adds a token. -/
def push (l : Layout) (token : Token) : Layout := { l with found := token :: l.found }

/-- Adds a token that takes one character. -/
def mark (l : Layout) (token : Token) : Layout :=
  { l with found := token :: l.found, cursor := l.cursor.advance }

/-- Puts tokens in at a position, latest first. -/
def insert (l : Layout) (position : Nat) (tokens : List Token) : Layout :=
  let after := l.found.length - position
  { l with found := l.found.take after ++ tokens ++ l.found.drop after }

/-! ### Blocks -/

/-- Whether a block collection at a column opens a new level. -/
def opens (l : Layout) (column : Nat) : Bool := !l.inFlow && l.blocks.head?.all (· < column)

/-- Opens a block collection at the column of the cursor if that opens a new level. -/
def openBlock (l : Layout) (token : Token) : Layout :=
  if l.opens l.cursor.column then
    { l with blocks := l.cursor.column :: l.blocks, found := token :: l.found }
  else l

/-- Closes the block collections for which a condition holds, innermost first. -/
def closeBlocks (l : Layout) (p : Nat → Bool) : Layout :=
  if l.inFlow then l
  else
    let count := (l.blocks.takeWhile p).length
    { l with
      blocks := l.blocks.drop count
      found := List.replicate count .blockEnd ++ l.found }

/-! ### Candidates -/

/-- Gives up a candidate. -/
def dropped? : Option Candidate → Option (Option Candidate)
  | some k => if k.required then none else some none
  | none => some none

/-- Gives up the innermost candidate. -/
def dropCandidate? (l : Layout) : Option Layout :=
  (dropped? l.candidate).map fun k => { l with candidate := k }

/-- Gives up a candidate that a colon at the cursor comes too late for. -/
def current? (c : Cursor) : Option Candidate → Option (Option Candidate)
  | some k =>
    if k.line < c.line || k.index + 1024 < c.index then dropped? (some k) else some (some k)
  | none => some none

/-- Gives up every candidate that a colon at the cursor comes too late for. -/
def dropStale? (l : Layout) : Option Layout := do
  return { l with
    candidate := ← current? l.cursor l.candidate
    outer := ← l.outer.mapM (current? l.cursor) }

/-- Notes that a key may begin at the cursor. -/
def saveCandidate? (l : Layout) : Option Layout :=
  if l.keyAllowed then
    let c := l.cursor
    (dropped? l.candidate).map fun _ => { l with
      candidate := some ⟨l.found.length, !l.inFlow && l.blocks.head? == some c.column,
        c.index, c.line, c.column⟩ }
  else some l

/-! ### Marks -/

/-- Opens a flow collection. -/
def openFlow? (l : Layout) (token : Token) : Option Layout :=
  l.saveCandidate?.map fun l =>
    { l.mark token with candidate := none, outer := l.candidate :: l.outer, keyAllowed := true }

/-- Closes a flow collection. -/
def closeFlow? (l : Layout) (token : Token) : Option Layout :=
  l.dropCandidate?.map fun l =>
    { l.mark token with
      candidate := l.outer.head?.getD l.candidate
      outer := l.outer.tail
      keyAllowed := false }

/-- The comma in a flow collection. -/
def comma? (l : Layout) : Option Layout :=
  l.dropCandidate?.map fun l => { l.mark .comma with keyAllowed := true }

/-- The hyphen in front of an item of a block sequence. -/
def item? (l : Layout) : Option Layout :=
  if l.inFlow ∨ l.keyAllowed then
    (l.openBlock .blockSequence).dropCandidate?.map fun l =>
      { l.mark .item with keyAllowed := true }
  else none

/-- The mark in front of a key. -/
def key? (l : Layout) : Option Layout :=
  if l.inFlow ∨ l.keyAllowed then
    (l.openBlock .blockMapping).dropCandidate?.map fun l =>
      { l.mark .key with keyAllowed := !l.inFlow }
  else none

/-- The colon in front of a value. -/
def value? (l : Layout) : Option Layout :=
  match l.candidate with
  | some k =>
    let opened := l.opens k.column
    let l := l.insert k.position (if opened then [.key, .blockMapping] else [.key])
    some { l.mark .value with
      blocks := if opened then k.column :: l.blocks else l.blocks
      candidate := none
      keyAllowed := false }
  | none =>
    if l.inFlow ∨ l.keyAllowed then
      some { (l.openBlock .blockMapping).mark .value with keyAllowed := !l.inFlow }
    else none

/-- A token after which no key can follow on the line. -/
def word? (l : Layout) (token : Token) (cursor : Cursor) : Option Layout :=
  l.saveCandidate?.map fun l =>
    { l with found := token :: l.found, cursor := cursor, keyAllowed := false }

/-- A mark or directive that stands outside all blocks. -/
def bound? (l : Layout) (token : Token) (cursor : Cursor) : Option Layout :=
  (l.closeBlocks fun _ => true).dropCandidate?.map fun l =>
    { l with found := token :: l.found, cursor := cursor, keyAllowed := false }

end Layout

end Flowgraph.Yaml
