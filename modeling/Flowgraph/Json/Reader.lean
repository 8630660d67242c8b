import Flowgraph.Text.Basic
import Flowgraph.Tree

/-!
# Reading JSON text

`Json.read` turns a text into a `Tree`. It never fails: where the text stops being JSON the
tree has a `broken` leaf, and nothing is read after it. Numbers beyond the finite ones,
halves of surrogate pairs and values nested deeper than 127 levels are well formed and have
no value; they become `unreadable` leaves.
-/

set_option autoImplicit false

namespace Flowgraph.Json

/-- A tree read from a text: the tree, and whether only blanks follow it. -/
structure Document where
  tree : Tree
  ended : Bool

namespace Reader

/-- What is left of a text, or `none` where reading has stopped. -/
abbrev Rest := Option (List Char)

/-- The blanks between the tokens of JSON. -/
def isSpace (c : Char) : Bool := c == ' ' || c == '\t' || c == '\n' || c == '\r'

/-- Drops blanks. -/
def skip (text : List Char) : List Char := text.dropWhile isSpace

/-- How many containers may be open at once. -/
def depthLimit : Nat := 127

/-! ### Numbers -/

/-- The exponent of a literal; `none` if a mark without digits makes it ill-formed. -/
def exponent? : List Char → Option (Option Int × List Char)
  | c :: rest =>
    if c = 'e' ∨ c = 'E' then
      let (negative, rest) := Decimal.splitSign rest
      let digits := rest.takeWhile Char.isDigit
      if digits.isEmpty then none
      else
        let n : Int := Decimal.ofDigits digits
        some (some (if negative then -n else n), rest.dropWhile Char.isDigit)
    else some (none, c :: rest)
  | [] => some (none, [])

/-- A number literal at the start of a text. -/
def literal? (text : List Char) : Option (Number.Literal × List Char) :=
  let (negative, text) := match text with
    | '-' :: rest => (true, rest)
    | text => (false, text)
  let whole := text.takeWhile Char.isDigit
  let rest := text.dropWhile Char.isDigit
  if whole.isEmpty || (whole.head? == some '0' && 1 < whole.length) then none
  else match rest with
    | '.' :: rest =>
      let fraction := rest.takeWhile Char.isDigit
      if fraction.isEmpty then none
      else (exponent? (rest.dropWhile Char.isDigit)).map fun (e, rest) =>
        (⟨negative, whole, some fraction, e⟩, rest)
    | rest => (exponent? rest).map fun (e, rest) => (⟨negative, whole, none, e⟩, rest)

/-! ### Strings -/

/-- Four hexadecimal digits. -/
def hex4? : List Char → Option (Nat × List Char)
  | a :: b :: c :: d :: rest => (Text.ofDigits? 16 [a, b, c, d]).map (·, rest)
  | _ => none

/-- The character of a one-letter escape. -/
def escape? : Char → Option Char
  | '"' => some '"'
  | '\\' => some '\\'
  | '/' => some '/'
  | 'b' => some '\x08'
  | 'f' => some '\x0c'
  | 'n' => some '\n'
  | 'r' => some '\r'
  | 't' => some '\t'
  | _ => none

/-- Whether a code is the first half of a surrogate pair. -/
def isLead (n : Nat) : Bool := 0xD800 ≤ n && n ≤ 0xDBFF

/-- Whether a code is the second half of a surrogate pair. -/
def isTrail (n : Nat) : Bool := 0xDC00 ≤ n && n ≤ 0xDFFF

/-- The characters of a string up to its closing quote. The outer `none` means that the
string is ill-formed, the inner one that a half of a surrogate pair stands alone. -/
def characters : Nat → List Char → Option (Option (List Char) × List Char)
  | 0, _ => none
  | _ + 1, [] => none
  | _ + 1, '"' :: rest => some (some [], rest)
  | fuel + 1, '\\' :: 'u' :: rest => do
    let (n, rest) ← hex4? rest
    if isLead n then
      match rest with
      | '\\' :: 'u' :: more =>
        let (m, after) ← hex4? more
        if isTrail m then
          let (text, rest) ← characters fuel after
          let c := Char.ofNat (0x10000 + (n - 0xD800) * 0x400 + (m - 0xDC00))
          return (text.map (c :: ·), rest)
        else
          let (_, rest) ← characters fuel rest
          return (none, rest)
      | rest =>
        let (_, rest) ← characters fuel rest
        return (none, rest)
    else if isTrail n then
      let (_, rest) ← characters fuel rest
      return (none, rest)
    else
      let (text, rest) ← characters fuel rest
      return (text.map (Char.ofNat n :: ·), rest)
  | fuel + 1, '\\' :: c :: rest => do
    let c ← escape? c
    let (text, rest) ← characters fuel rest
    return (text.map (c :: ·), rest)
  | fuel + 1, c :: rest =>
    if c.toNat < 0x20 ∨ c = '\\' then none
    else do
      let (text, rest) ← characters fuel rest
      return (text.map (c :: ·), rest)

/-- A string after its opening quote. -/
def quoted (text : List Char) : Option (Option String × List Char) :=
  (characters (text.length + 1) text).map fun (s, rest) => (s.map String.ofList, rest)

/-! ### Values -/

/-- Drops a word from the start of a text. -/
def word? (word text : List Char) : Option (List Char) :=
  if text.take word.length = word then some (text.drop word.length) else none

/-- Cuts a container that is nested too deep down to a leaf. -/
def capped (depth : Nat) : Tree × Rest → Tree × Rest
  | (tree, some rest) => (if depth = 0 then .unreadable else tree, some rest)
  | (tree, none) => (if depth = 0 then .broken else tree, none)

mutual

/-- A value at the start of a text, with `depth` more containers allowed inside. -/
def value : Nat → Nat → List Char → Tree × Rest
  | 0, _, _ => (.broken, none)
  | fuel + 1, depth, text =>
    match skip text with
    | [] => (.broken, none)
    | '{' :: rest =>
      let (found, rest) := firstMember fuel (depth - 1) rest
      capped depth (.object found, rest)
    | '[' :: rest =>
      let (found, rest) := firstItem fuel (depth - 1) rest
      capped depth (.array found, rest)
    | '"' :: rest =>
      match quoted rest with
      | none => (.broken, none)
      | some (none, rest) => (.unreadable, some rest)
      | some (some s, rest) => (.string s, some rest)
    | c :: rest =>
      if c = '-' ∨ c.isDigit then
        match literal? (c :: rest) with
        | none => (.broken, none)
        | some (l, rest) => ((Number.ofLiteral? l).elim .unreadable .number, some rest)
      else match word? "true".toList (c :: rest), word? "false".toList (c :: rest),
          word? "null".toList (c :: rest) with
        | some rest, _, _ => (.bool true, some rest)
        | _, some rest, _ => (.bool false, some rest)
        | _, _, some rest => (.null, some rest)
        | none, none, none => (.broken, none)

/-- The items of an array after its opening bracket. -/
def firstItem : Nat → Nat → List Char → List Tree × Rest
  | 0, _, _ => ([.broken], none)
  | fuel + 1, depth, text =>
    match skip text with
    | ']' :: rest => ([], some rest)
    | text => items fuel depth text

/-- An item, and the items after it. -/
def items : Nat → Nat → List Char → List Tree × Rest
  | 0, _, _ => ([.broken], none)
  | fuel + 1, depth, text =>
    match value fuel depth text with
    | (item, none) => ([item], none)
    | (item, some rest) =>
      match skip rest with
      | ']' :: rest => ([item], some rest)
      | ',' :: rest =>
        let (more, rest) := items fuel depth rest
        (item :: more, rest)
      | _ => ([item, .broken], none)

/-- The members of an object after its opening brace. -/
def firstMember : Nat → Nat → List Char → List (String × Tree) × Rest
  | 0, _, _ => ([("", .broken)], none)
  | fuel + 1, depth, text =>
    match skip text with
    | '}' :: rest => ([], some rest)
    | text => members fuel depth text

/-- A member, and the members after it. -/
def members : Nat → Nat → List Char → List (String × Tree) × Rest
  | 0, _, _ => ([("", .broken)], none)
  | fuel + 1, depth, text =>
    match skip text with
    | '"' :: rest =>
      match quoted rest with
      | some (some key, rest) =>
        match skip rest with
        | ':' :: rest =>
          match value fuel depth rest with
          | (v, none) => ([(key, v)], none)
          | (v, some rest) =>
            match skip rest with
            | '}' :: rest => ([(key, v)], some rest)
            | ',' :: rest =>
              let (more, rest) := members fuel depth rest
              ((key, v) :: more, rest)
            | _ => ([(key, v), ("", .broken)], none)
        | _ => ([(key, .broken)], none)
      | _ => ([("", .broken)], none)
    | _ => ([("", .broken)], none)

end

end Reader

/-- Reads a text as one JSON value. -/
def read (text : String) : Document :=
  let cs := text.toList
  match Reader.value (2 * cs.length + 2) Reader.depthLimit cs with
  | (tree, some rest) => ⟨tree, (Reader.skip rest).isEmpty⟩
  | (tree, none) => ⟨tree, false⟩

end Flowgraph.Json
