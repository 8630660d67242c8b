import Flowgraph.Yaml.Node.Basic
import Flowgraph.Yaml.Token.Scan

/-!
# Nodes from tokens

The grammar of YAML: which sequences of tokens are nodes, and a text that holds one document
is a node. Parts of a collection that are left out are `absent`.
-/

set_option autoImplicit false

namespace Flowgraph.Yaml

namespace Node

/-- Something read from tokens, and the tokens after it. -/
abbrev Parsed (α : Type) := α × List Token

/-- What tag handles stand for. -/
abbrev Handles := List (String × String)

/-- A tag in full. -/
def fullTag? (handles : Handles) (handle text : String) : Option String :=
  if handle.isEmpty then some text else (Assoc.get? handle handles).map (· ++ text)

/-- An anchor and a tag in either order. -/
def properties? (handles : Handles) : List Token → Option (Parsed (Properties String))
  | .anchor name :: .tag handle text :: rest | .tag handle text :: .anchor name :: rest =>
    (fullTag? handles handle text).map fun tag => (⟨some name, some tag⟩, rest)
  | .anchor name :: rest => some (⟨some name, none⟩, rest)
  | .tag handle text :: rest =>
    (fullTag? handles handle text).map fun tag => (⟨none, some tag⟩, rest)
  | tokens => some ({}, tokens)

/-- The properties of a scalar that is written out; the tag `!` does not count. -/
def ofScalar (p : Properties String) : Properties String :=
  if p.tag = some "!" then ⟨p.anchor, none⟩ else p

/-- Whether a part of a block collection is left out in front of some tokens. -/
def isLeftOut : List Token → Bool
  | .item :: _ | .key :: _ | .value :: _ | .blockEnd :: _ => true
  | _ => false

/-- Whether an item of a block sequence is left out in front of some tokens. -/
def isItemLeftOut : List Token → Bool
  | .item :: _ | .blockEnd :: _ => true
  | _ => false

/-- Whether the key or value of a mapping is left out in front of some tokens. -/
def isEntryLeftOut : List Token → Bool
  | .key :: _ | .value :: _ | .blockEnd :: _ => true
  | _ => false

/-- A node of which only the properties are written. -/
def absent? (p : Properties String) (tokens : List Token) : Option (Parsed (Node String)) :=
  if p.anchor.isSome || p.tag.isSome then some (.scalar p true "", tokens) else none

mutual

/-- A node. Block collections can begin unless `flow`; a block sequence can begin without
an indentation of its own if `hanging`. -/
def parse (handles : Handles) : Nat → Bool → Bool → List Token → Option (Parsed (Node String))
  | 0, _, _, _ => none
  | _ + 1, _, _, .alias name :: rest => some (.alias name, rest)
  | fuel + 1, flow, hanging, tokens => do
    let (p, tokens) ← properties? handles tokens
    match tokens with
    | .scalar plain text :: rest => return (.scalar (ofScalar p) plain text, rest)
    | .flowSequence :: rest =>
      let (items, rest) ← flowItems handles fuel true rest
      return (.sequence p items, rest)
    | .flowMapping :: rest =>
      let (entries, rest) ← flowEntries handles fuel true rest
      return (.mapping p entries, rest)
    | .blockSequence :: rest =>
      if flow then absent? p (.blockSequence :: rest)
      else
        let (items, rest) ← blockItems handles fuel rest
        return (.sequence p items, rest)
    | .blockMapping :: rest =>
      if flow then absent? p (.blockMapping :: rest)
      else
        let (entries, rest) ← blockEntries handles fuel rest
        return (.mapping p entries, rest)
    | .item :: rest =>
      if hanging then
        let (items, rest) ← hangingItems handles fuel (.item :: rest)
        return (.sequence p items, rest)
      else absent? p (.item :: rest)
    | tokens => absent? p tokens

/-- The items of a block sequence. -/
def blockItems (handles : Handles) : Nat → List Token → Option (Parsed (List (Node String)))
  | fuel + 1, .item :: rest => do
    let (n, rest) ← if isItemLeftOut rest then some (absent, rest)
      else parse handles fuel false false rest
    let (more, rest) ← blockItems handles fuel rest
    return (n :: more, rest)
  | _ + 1, .blockEnd :: rest => some ([], rest)
  | _, _ => none

/-- The items of a block sequence without an indentation of its own. -/
def hangingItems (handles : Handles) : Nat → List Token → Option (Parsed (List (Node String)))
  | 0, _ => none
  | fuel + 1, .item :: rest => do
    let (n, rest) ← if isLeftOut rest then some (absent, rest)
      else parse handles fuel false false rest
    let (more, rest) ← hangingItems handles fuel rest
    return (n :: more, rest)
  | _ + 1, tokens => some ([], tokens)

/-- The entries of a block mapping. -/
def blockEntries (handles : Handles) :
    Nat → List Token → Option (Parsed (List (Node String × Node String)))
  | fuel + 1, .key :: rest => do
    let (k, rest) ← if isEntryLeftOut rest then some (absent, rest)
      else parse handles fuel false true rest
    let (v, rest) ← blockValue handles fuel rest
    let (more, rest) ← blockEntries handles fuel rest
    return ((k, v) :: more, rest)
  | _ + 1, .blockEnd :: rest => some ([], rest)
  | _, _ => none

/-- The value of an entry of a block mapping. -/
def blockValue (handles : Handles) : Nat → List Token → Option (Parsed (Node String))
  | 0, _ => none
  | fuel + 1, .value :: rest =>
    if isEntryLeftOut rest then some (absent, rest) else parse handles fuel false true rest
  | _ + 1, tokens => some (absent, tokens)

/-- The items of a flow sequence; an entry of a mapping counts as a mapping of its own. -/
def flowItems (handles : Handles) : Nat → Bool → List Token → Option (Parsed (List (Node String)))
  | 0, _, _ => none
  | _ + 1, _, .flowSequenceEnd :: rest => some ([], rest)
  | fuel + 1, true, .key :: rest => do
    let (k, rest) ← flowKey handles fuel rest
    let (v, rest) ← flowValue handles .flowSequenceEnd fuel rest
    let (more, rest) ← flowItems handles fuel false rest
    return (.mapping {} [(k, v)] :: more, rest)
  | fuel + 1, true, tokens => do
    let (n, rest) ← parse handles fuel true false tokens
    let (more, rest) ← flowItems handles fuel false rest
    return (n :: more, rest)
  | fuel + 1, false, .comma :: rest => flowItems handles fuel true rest
  | _ + 1, false, _ => none

/-- The key of an entry among the items of a flow sequence. Where it is left out, the token
in its place is passed over. -/
def flowKey (handles : Handles) : Nat → List Token → Option (Parsed (Node String))
  | 0, _ => none
  | _ + 1, .value :: rest | _ + 1, .comma :: rest | _ + 1, .flowSequenceEnd :: rest =>
    some (absent, rest)
  | fuel + 1, tokens => parse handles fuel true false tokens

/-- The value of an entry in a flow collection with the given mark at its end. -/
def flowValue (handles : Handles) (closing : Token) :
    Nat → List Token → Option (Parsed (Node String))
  | 0, _ => none
  | fuel + 1, .value :: rest =>
    if rest.head? = some .comma ∨ rest.head? = some closing then some (absent, rest)
    else parse handles fuel true false rest
  | _ + 1, tokens => some (absent, tokens)

/-- The entries of a flow mapping. -/
def flowEntries (handles : Handles) :
    Nat → Bool → List Token → Option (Parsed (List (Node String × Node String)))
  | 0, _, _ => none
  | _ + 1, _, .flowMappingEnd :: rest => some ([], rest)
  | fuel + 1, true, .key :: rest => do
    let (k, rest) ← match rest with
      | .value :: _ | .comma :: _ | .flowMappingEnd :: _ => some (absent, rest)
      | rest => parse handles fuel true false rest
    let (v, rest) ← flowValue handles .flowMappingEnd fuel rest
    let (more, rest) ← flowEntries handles fuel false rest
    return ((k, v) :: more, rest)
  | fuel + 1, true, tokens => do
    let (k, rest) ← parse handles fuel true false tokens
    let (more, rest) ← flowEntries handles fuel false rest
    return ((k, absent) :: more, rest)
  | fuel + 1, false, .comma :: rest => flowEntries handles fuel true rest
  | _ + 1, false, _ => none

end

/-- The handles that every document may use. -/
def standardHandles : Handles := [("!", "!"), ("!!", "tag:yaml.org,2002:")]

/-- The directives in front of a document: at most one version, and one text for each
handle. -/
def directives? : Bool → Handles → List Token → Option (Parsed Handles)
  | versioned, handles, .version major minor :: rest =>
    if versioned ∨ major ≠ 1 ∨ (minor ≠ 1 ∧ minor ≠ 2) then none
    else directives? true handles rest
  | versioned, handles, .shorthand handle text :: rest =>
    if Assoc.contains handle handles then none
    else directives? versioned (handles ++ [(handle, text)]) rest
  | _, handles, tokens => some (handles ++ standardHandles, tokens)

/-- The content of a document after the mark of its start. -/
def content? (handles : Handles) (tokens : List Token) : Option (Parsed (Node String)) :=
  match tokens with
  | [] | .documentStart :: _ | .documentEnd :: _ | .version _ _ :: _ | .shorthand _ _ :: _ =>
    some (absent, tokens)
  | tokens => parse handles (4 * tokens.length + 4) false false tokens

/-- The node of a text with a single document; nothing at all counts as an absent node. -/
def ofTokens? (tokens : List Token) : Option (Node String) := do
  let (node, rest) ← match tokens with
    | [] => some (absent, [])
    | .documentStart :: _ | .version _ _ :: _ | .shorthand _ _ :: _ =>
      match ← directives? false [] tokens with
      | (handles, .documentStart :: rest) => content? handles rest
      | _ => none
    | tokens => parse standardHandles (4 * tokens.length + 4) false false tokens
  if rest.all (· == .documentEnd) then some node else none

/-- The node of a text with a single document, with anchors by number. -/
def ofText? (text : String) : Option (Node Nat) := do
  let node ← ofTokens? (← Token.ofText? text)
  return (← node.number? []).1

end Node

end Flowgraph.Yaml
