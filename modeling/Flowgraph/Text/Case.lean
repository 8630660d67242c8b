import Flowgraph.Text.CaseTable
import Flowgraph.Text.Basic

/-!
# Upper and lower case

Texts are mapped character by character with the full mappings, so that a text may grow.
One mapping depends on its neighbours: a capital sigma at the end of a word becomes the
final small sigma.
-/

set_option autoImplicit false

namespace Flowgraph.Text

/-- Whether a run of the table contains a code point. -/
def CaseRun.holds (r : CaseRun) (n : Nat) : Bool :=
  r.first ≤ n && n ≤ r.last && (n - r.first) % r.step == 0

/-- Maps one character by a table, and leaves it where the table has no entry. -/
def mapCase (runs : List CaseRun) (many : List (Nat × List Nat)) (c : Char) : List Char :=
  match many.find? (·.1 == c.toNat), runs.find? (·.holds c.toNat) with
  | some (_, cs), _ => cs.map Char.ofNat
  | none, some r => [Char.ofNat (c.toNat + r.distance).toNat]
  | none, none => [c]

/-- The upper-case form of one character. -/
def upperChar (c : Char) : List Char :=
  if c.toNat < 0x80 then [c.toUpper] else mapCase upperRuns upperMany c

/-- The lower-case form of one character without its neighbours. -/
def lowerChar (c : Char) : List Char :=
  if c.toNat < 0x80 then [c.toLower] else mapCase lowerRuns lowerMany c

/-- Whether the first character that is not passed over has a case. -/
def cased (text : List Char) : Bool :=
  match text.dropWhile (fun c => inRanges caseIgnorableRanges c.toNat) with
  | [] => false
  | c :: _ => inRanges casedRanges c.toNat

/-- Maps to lower case; `before` holds the characters already passed, last first. -/
def lowerFrom (before : List Char) : List Char → List Char
  | [] => []
  | c :: rest =>
    (if c = 'Σ' then [if cased before && !cased rest then 'ς' else 'σ'] else lowerChar c) ++
      lowerFrom (c :: before) rest

/-- The text in upper case. -/
def upper (s : String) : String := String.ofList (s.toList.flatMap upperChar)

/-- The text in lower case. -/
def lower (s : String) : String := String.ofList (lowerFrom [] s.toList)

/-- The text with its characters in reverse order. -/
def reverse (s : String) : String := String.ofList s.toList.reverse

example : upper "straße" = "STRASSE" := by decide +kernel
example : lower "ΟΔΥΣΣΕΥΣ Σ" = "οδυσσευς σ" := by decide +kernel

end Flowgraph.Text
