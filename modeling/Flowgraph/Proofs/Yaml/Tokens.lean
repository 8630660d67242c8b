import Flowgraph.Proofs.Yaml.Node
import Flowgraph.Yaml.Node.OfTokens

/-!
# Trees as tokens

`Tree.tokens` are the tokens of the text of a tree. Every collection that is not empty stands
between the marks of its indentation, except for a sequence at a key, whose items stand at the
column of the key. The grammar takes the tokens to the node of the tree (`ofTokens?_tokens`).
-/

set_option autoImplicit false

namespace Flowgraph

open Yaml

namespace Tree

/-- The token of a text. -/
def textToken (s : String) : Token := .scalar (Style.ofText s == .plain) s

/-- The marks of the indentation of a collection around its tokens. -/
def enclose (t : Tree) (content : List Token) : List Token :=
  match t with
  | .array (_ :: _) => .blockSequence :: content ++ [.blockEnd]
  | .object (_ :: _) => .blockMapping :: content ++ [.blockEnd]
  | _ => content

/-- Whether the value at a key has no indentation of its own. -/
def hangs (name : String) : Tree → Bool
  | .array (_ :: _) => Style.allowsKey name
  | _ => false

mutual

/-- The tokens of a tree without the marks of its own indentation. -/
def content : Tree → List Token
  | .string s => [textToken s]
  | .array [] => [.flowSequence, .flowSequenceEnd]
  | .array (item :: rest) => .item :: enclose item item.content ++ itemTokens rest
  | .object [] => [.flowMapping, .flowMappingEnd]
  | .object ((name, item) :: rest) =>
    .key :: textToken name :: .value ::
      (if hangs name item then item.content else enclose item item.content) ++ memberTokens rest
  | leaf => [.scalar true (String.ofList (Printer.leaf 0 leaf))]

/-- The tokens of the items of a sequence. -/
def itemTokens : List Tree → List Token
  | [] => []
  | item :: rest => .item :: enclose item item.content ++ itemTokens rest

/-- The tokens of the entries of a mapping. -/
def memberTokens : List (String × Tree) → List Token
  | [] => []
  | (name, item) :: rest =>
    .key :: textToken name :: .value ::
      (if hangs name item then item.content else enclose item item.content) ++ memberTokens rest

end

/-- The tokens of a tree. -/
def tokens (t : Tree) : List Token := t.enclose t.content

/-- The tokens of the value at a key. -/
def valueTokens (name : String) (t : Tree) : List Token :=
  if hangs name t then t.content else t.tokens

theorem content_array (item : Tree) (rest : List Tree) :
    (Tree.array (item :: rest)).content = itemTokens (item :: rest) := rfl

theorem content_object (m : String × Tree) (rest : List (String × Tree)) :
    (Tree.object (m :: rest)).content = memberTokens (m :: rest) := rfl

theorem itemTokens_cons (item : Tree) (rest : List Tree) :
    itemTokens (item :: rest) = .item :: item.tokens ++ itemTokens rest := rfl

theorem memberTokens_cons (name : String) (item : Tree) (rest : List (String × Tree)) :
    memberTokens ((name, item) :: rest) =
      .key :: textToken name :: .value :: valueTokens name item ++ memberTokens rest := rfl

theorem tokens_array (item : Tree) (rest : List Tree) :
    (Tree.array (item :: rest)).tokens =
      .blockSequence :: itemTokens (item :: rest) ++ [.blockEnd] := rfl

theorem tokens_object (m : String × Tree) (rest : List (String × Tree)) :
    (Tree.object (m :: rest)).tokens =
      .blockMapping :: memberTokens (m :: rest) ++ [.blockEnd] := rfl

theorem valueTokens_of_hangs {name : String} {t : Tree} (h : t.hangs name = true) :
    ∃ item rest, t = .array (item :: rest) ∧ valueTokens name t = itemTokens (item :: rest) := by
  unfold hangs at h
  split at h
  case h_1 item rest => exact ⟨item, rest, rfl, if_pos h⟩
  case h_2 => cases h

theorem valueTokens_of_not_hangs {name : String} {t : Tree} (h : t.hangs name = false) :
    valueTokens name t = t.tokens := by
  rw [valueTokens, h]
  rfl

theorem hangs_of_not_allowsKey {name : String} (h : ¬Style.allowsKey name = true) (t : Tree) :
    t.hangs name = false := by
  unfold hangs
  split
  · exact Bool.eq_false_iff.2 h
  · rfl

/-- Whether a tree is a collection that is not empty. -/
def hasParts : Tree → Bool
  | .array (_ :: _) | .object (_ :: _) => true
  | _ => false

theorem hangs_of_leaf {name : String} {t : Tree} (h : t.hasParts = false) :
    t.hangs name = false := by
  match t with
  | .array [] | .object [] | .null | .bool _ | .number _ | .string _ | .infinite | .unkeyed
  | .unreadable | .broken => rfl
  | .array (_ :: _) | .object (_ :: _) => cases h

theorem hangs_of_array {name : String} {items : List Tree} (hkey : Style.allowsKey name = true)
    (h : (Tree.array items).hasParts = true) : (Tree.array items).hangs name = true := by
  match items with
  | _ :: _ => exact hkey
  | [] => cases h

/-- A token that begins a node and is not the mark of an item. -/
def Begins : Token → Prop
  | .scalar _ _ | .blockSequence | .blockMapping | .flowSequence | .flowMapping => True
  | _ => False

theorem exists_tokens_eq (t : Tree) : ∃ first rest, t.tokens = first :: rest ∧ Begins first := by
  match t with
  | .array [] | .array (_ :: _) | .object [] | .object (_ :: _) | .null | .bool _ | .number _
  | .string _ | .infinite | .unkeyed | .unreadable | .broken => exact ⟨_, _, rfl, trivial⟩

end Tree

namespace Yaml.Node

open Flowgraph.Tree

variable {handles : Handles} {fuel : Nat} {hanging : Bool} {rest : List Token}

/-! ### The grammar, one token at a time -/

theorem parse_blockSequence : parse handles (fuel + 1) false hanging (.blockSequence :: rest) =
    (blockItems handles fuel rest).map fun p => (.sequence {} p.1, p.2) := by
  simp only [parse, properties?, bind, Option.bind_some, Bool.false_eq_true, if_false, pure]
  cases blockItems handles fuel rest <;> rfl

theorem parse_blockMapping : parse handles (fuel + 1) false hanging (.blockMapping :: rest) =
    (blockEntries handles fuel rest).map fun p => (.mapping {} p.1, p.2) := by
  simp only [parse, properties?, bind, Option.bind_some, Bool.false_eq_true, if_false, pure]
  cases blockEntries handles fuel rest <;> rfl

theorem parse_item : parse handles (fuel + 1) false true (.item :: rest) =
    (hangingItems handles fuel (.item :: rest)).map fun p => (.sequence {} p.1, p.2) := by
  simp only [parse, properties?, bind, Option.bind_some, if_true, pure]
  cases hangingItems handles fuel (.item :: rest) <;> rfl

theorem isItemLeftOut_tokens (t : Tree) : isItemLeftOut (t.tokens ++ rest) = false := by
  obtain ⟨first, more, htokens, hfirst⟩ := t.exists_tokens_eq
  rw [htokens, List.cons_append]
  cases first with
  | item | blockEnd => exact hfirst.elim
  | _ => rfl

theorem isLeftOut_tokens (t : Tree) : isLeftOut (t.tokens ++ rest) = false := by
  obtain ⟨first, more, htokens, hfirst⟩ := t.exists_tokens_eq
  rw [htokens, List.cons_append]
  cases first with
  | item | key | value | blockEnd => exact hfirst.elim
  | _ => rfl

theorem isEntryLeftOut_valueTokens (name : String) (t : Tree) :
    isEntryLeftOut (t.valueTokens name ++ rest) = false := by
  cases h : t.hangs name with
  | true =>
    obtain ⟨item, more, -, htokens⟩ := valueTokens_of_hangs h
    rw [htokens]
    rfl
  | false =>
    obtain ⟨first, more, htokens, hfirst⟩ := t.exists_tokens_eq
    rw [valueTokens_of_not_hangs h, htokens, List.cons_append]
    cases first with
    | key | value | blockEnd => exact hfirst.elim
    | _ => rfl

theorem blockItems_item (t : Tree) :
    blockItems handles (fuel + 1) (.item :: (t.tokens ++ rest)) = do
      let (n, rest) ← parse handles fuel false false (t.tokens ++ rest)
      let (more, rest) ← blockItems handles fuel rest
      return (n :: more, rest) := by
  rw [blockItems, isItemLeftOut_tokens]
  rfl

theorem hangingItems_item (t : Tree) :
    hangingItems handles (fuel + 1) (.item :: (t.tokens ++ rest)) = do
      let (n, rest) ← parse handles fuel false false (t.tokens ++ rest)
      let (more, rest) ← hangingItems handles fuel rest
      return (n :: more, rest) := by
  rw [hangingItems, isLeftOut_tokens]
  rfl

theorem hangingItems_end (h : rest.head? ≠ some .item) :
    hangingItems handles (fuel + 1) rest = some ([], rest) := by
  unfold hangingItems
  split
  case h_1 heq => cases heq
  case h_2 => exact absurd rfl h
  case h_3 => rfl

theorem blockEntries_key (name : String) :
    blockEntries handles (fuel + 2) (.key :: textToken name :: rest) = do
      let (v, rest) ← blockValue handles (fuel + 1) rest
      let (more, rest) ← blockEntries handles (fuel + 1) rest
      return ((textNode name, v) :: more, rest) := by
  rfl

theorem blockValue_value (name : String) (t : Tree) :
    blockValue handles (fuel + 1) (.value :: (t.valueTokens name ++ rest)) =
      parse handles fuel false true (t.valueTokens name ++ rest) := by
  rw [blockValue, isEntryLeftOut_valueTokens]
  rfl

/-! ### The tokens of a tree -/

mutual

theorem parse_tokens (t : Tree) (hanging : Bool) (fuel : Nat) (rest : List Token)
    (h : t.tokens.length < fuel) :
    parse handles fuel false hanging (t.tokens ++ rest) = some (t.node, rest) := by
  obtain ⟨fuel, rfl⟩ := Nat.exists_eq_add_one.2 (Nat.zero_lt_of_lt h)
  match t with
  | .array [] | .object [] =>
    obtain ⟨fuel, rfl⟩ := Nat.exists_eq_add_one.2 (Nat.zero_lt_of_lt (Nat.le_of_lt_succ h))
    rfl
  | .array (item :: items) =>
    simp only [tokens_array, List.length_cons, List.length_append, List.length_nil] at h
    rw [tokens_array, List.cons_append, List.cons_append, List.append_assoc, parse_blockSequence,
      List.singleton_append, blockItems_itemTokens (item :: items) fuel rest (by omega)]
    rfl
  | .object (m :: members) =>
    simp only [tokens_object, List.length_cons, List.length_append, List.length_nil] at h
    rw [tokens_object, List.cons_append, List.cons_append, List.append_assoc, parse_blockMapping,
      List.singleton_append, blockEntries_memberTokens (m :: members) fuel rest (by omega)]
    rfl
  | .null | .bool _ | .number _ | .string _ | .infinite | .unkeyed | .unreadable | .broken => rfl

theorem parse_content (t : Tree) (name : String) (hhangs : t.hangs name = true) (fuel : Nat)
    (rest : List Token) (h : t.content.length + 1 < fuel) (hrest : rest.head? ≠ some .item) :
    parse handles fuel false true (t.content ++ rest) = some (t.node, rest) := by
  obtain ⟨fuel, rfl⟩ := Nat.exists_eq_add_one.2 (Nat.zero_lt_of_lt h)
  match t with
  | .array (item :: items) =>
    rw [content_array, itemTokens_cons, List.cons_append, List.cons_append, parse_item]
    have hitems := hangingItems_itemTokens (item :: items) fuel rest (Nat.lt_of_succ_lt_succ h)
      hrest
    rw [itemTokens_cons, List.cons_append, List.cons_append] at hitems
    rw [hitems]
    rfl
  | .array [] | .object _ | .null | .bool _ | .number _ | .string _ | .infinite | .unkeyed
  | .unreadable | .broken => cases hhangs

theorem blockItems_itemTokens (items : List Tree) (fuel : Nat) (rest : List Token)
    (h : (itemTokens items).length < fuel) :
    blockItems handles fuel (itemTokens items ++ .blockEnd :: rest) =
      some (itemNodes items, rest) := by
  obtain ⟨fuel, rfl⟩ := Nat.exists_eq_add_one.2 (Nat.zero_lt_of_lt h)
  match items with
  | [] => rfl
  | item :: items =>
    simp only [itemTokens_cons, List.length_cons, List.length_append] at h
    rw [itemTokens_cons, List.cons_append, List.cons_append, List.append_assoc, blockItems_item,
      parse_tokens item false fuel _ (by omega)]
    simp only [blockItems_itemTokens items fuel rest (by omega), bind, Option.bind_some]
    rfl

theorem hangingItems_itemTokens (items : List Tree) (fuel : Nat) (rest : List Token)
    (h : (itemTokens items).length < fuel) (hrest : rest.head? ≠ some .item) :
    hangingItems handles fuel (itemTokens items ++ rest) = some (itemNodes items, rest) := by
  obtain ⟨fuel, rfl⟩ := Nat.exists_eq_add_one.2 (Nat.zero_lt_of_lt h)
  match items with
  | [] => exact hangingItems_end hrest
  | item :: items =>
    simp only [itemTokens_cons, List.length_cons, List.length_append] at h
    rw [itemTokens_cons, List.cons_append, List.cons_append, List.append_assoc, hangingItems_item,
      parse_tokens item false fuel _ (by omega)]
    simp only [hangingItems_itemTokens items fuel rest (by omega) hrest, bind, Option.bind_some]
    rfl

theorem blockEntries_memberTokens (members : List (String × Tree)) (fuel : Nat)
    (rest : List Token) (h : (memberTokens members).length < fuel) :
    blockEntries handles fuel (memberTokens members ++ .blockEnd :: rest) =
      some (memberNodes members, rest) := by
  match members with
  | [] =>
    obtain ⟨fuel, rfl⟩ := Nat.exists_eq_add_one.2 (Nat.zero_lt_of_lt h)
    rfl
  | (name, item) :: members =>
    simp only [memberTokens_cons, List.length_cons, List.length_append] at h
    obtain ⟨fuel, rfl⟩ : ∃ m, fuel = m + 2 := ⟨fuel - 2, by omega⟩
    have hnext : (memberTokens members ++ .blockEnd :: rest).head? ≠ some .item := by
      cases members <;> simp [memberTokens]
    have hvalue : parse handles fuel false true (item.valueTokens name ++
        (memberTokens members ++ .blockEnd :: rest)) =
          some (item.node, memberTokens members ++ .blockEnd :: rest) := by
      cases hhangs : item.hangs name with
      | true =>
        have hcontent : item.valueTokens name = item.content := if_pos hhangs
        rw [hcontent] at h ⊢
        exact parse_content item name hhangs fuel _ (by omega) hnext
      | false =>
        have htokens : item.valueTokens name = item.tokens := valueTokens_of_not_hangs hhangs
        rw [htokens] at h ⊢
        exact parse_tokens item true fuel _ (by omega)
    have hvalue : blockValue handles (fuel + 1) (.value :: (item.valueTokens name ++
        (memberTokens members ++ .blockEnd :: rest))) =
          some (item.node, memberTokens members ++ .blockEnd :: rest) :=
      (blockValue_value name item).trans hvalue
    rw [memberTokens_cons, List.cons_append, List.cons_append, List.cons_append, List.cons_append,
      List.cons_append, List.cons_append, List.append_assoc, blockEntries_key, hvalue]
    simp only [blockEntries_memberTokens members (fuel + 1) rest (by omega), bind,
      Option.bind_some]
    rfl

end

/-- **The tokens of a tree are those of its node.** -/
theorem ofTokens?_tokens (t : Tree) : ofTokens? t.tokens = some t.node := by
  obtain ⟨first, rest, htokens, hfirst⟩ := t.exists_tokens_eq
  have hparse : parse standardHandles (4 * t.tokens.length + 4) false false (t.tokens ++ []) =
      some (t.node, []) := parse_tokens t false _ [] (by omega)
  rw [List.append_nil, htokens] at hparse
  rw [htokens]
  cases first with
  | scalar | blockSequence | blockMapping | flowSequence | flowMapping =>
    simp only [ofTokens?, hparse, bind, Option.bind_some]
    rfl
  | _ => exact hfirst.elim

end Yaml.Node

end Flowgraph
