import Flowgraph.Proofs.Tree.Leaves
import Flowgraph.Proofs.Yaml.Scalar
import Flowgraph.Yaml.Shape

/-!
# Trees as nodes

`Tree.node` is the node that the text of a tree stands for. A node is read by shape as the tree it
comes from, as long as collections are nested no deeper than allowed (`Reads`): a text that stands
by itself means itself, and so do the texts of numbers and truth values.
-/

set_option autoImplicit false

namespace Flowgraph

namespace Tree

open Yaml

variable {α : Type}

/-- The node of a text. -/
def textNode (s : String) : Node α := .scalar {} (Style.ofText s == .plain) s

mutual

/-- The node that a tree is written as. -/
def node : Tree → Node α
  | .string s => textNode s
  | .array items => .sequence {} (itemNodes items)
  | .object members => .mapping {} (memberNodes members)
  | leaf => .scalar {} true (String.ofList (Printer.leaf 0 leaf))

/-- `node` for the items of an array. -/
def itemNodes : List Tree → List (Node α)
  | [] => []
  | item :: rest => item.node :: itemNodes rest

/-- `node` for the members of an object. -/
def memberNodes : List (String × Tree) → List (Node α × Node α)
  | [] => []
  | (name, item) :: rest => (textNode name, item.node) :: memberNodes rest

end

theorem itemNodes_eq (items : List Tree) : (itemNodes items : List (Node α)) = items.map node := by
  induction items with
  | nil => rfl
  | cons item rest ih => rw [itemNodes, ih, List.map_cons]

theorem memberNodes_eq (members : List (String × Tree)) :
    (memberNodes members : List (Node α × Node α)) =
      members.map fun m => (textNode m.1, m.2.node) := by
  induction members with
  | nil => rfl
  | cons member rest ih => rw [memberNodes, ih, List.map_cons]

/-! ### Anchors by number -/

section Number

variable (names : Node.Names)

theorem number?_scalar (plain : Bool) (text : String) :
    Node.number? names (.scalar {} plain text) = some (.scalar {} plain text, names) := rfl

mutual

/-- A node without anchors stays as it is when the anchors are numbered. -/
theorem number?_node (t : Tree) : Node.number? names t.node = some (t.node, names) := by
  match t with
  | .array items =>
    simp only [node, Node.number?, Node.Names.number, itemsNumber?_itemNodes items, bind,
      Option.bind_some, pure]
  | .object members =>
    simp only [node, Node.number?, Node.Names.number, entriesNumber?_memberNodes members, bind,
      Option.bind_some, pure]
  | .null | .bool _ | .number _ | .string _ | .infinite | .unkeyed | .unreadable | .broken => rfl

theorem itemsNumber?_itemNodes (items : List Tree) :
    Node.itemsNumber? names (itemNodes items) = some (itemNodes items, names) := by
  match items with
  | [] => rfl
  | item :: rest =>
    simp only [itemNodes, Node.itemsNumber?, number?_node item, itemsNumber?_itemNodes rest, bind,
      Option.bind_some, pure]

theorem entriesNumber?_memberNodes (members : List (String × Tree)) :
    Node.entriesNumber? names (memberNodes members) = some (memberNodes members, names) := by
  match members with
  | [] => rfl
  | (name, item) :: rest =>
    simp only [memberNodes, Node.entriesNumber?, textNode, number?_scalar, number?_node item,
      entriesNumber?_memberNodes rest, bind, Option.bind_some, pure]

end

end Number

end Tree

namespace Yaml

/-! ### Texts -/

theorem Style.meaning_of_plain {s : String} (h : ofText s = .plain) : Scalar.meaning s = .text := by
  unfold ofText at h
  dsimp only at h
  split at h
  · split at h <;> cases h
  · split at h
    case isTrue hplain =>
      simp only [isUnambiguous, Bool.and_eq_true, decide_eq_true_eq] at hplain
      exact hplain.2.1
    case isFalse => split at h <;> cases h

theorem Scalar.not_null_of_meaning {s : String} (h : meaning s = .text) :
    (s.isEmpty || isNull s) = false := by
  rw [Bool.eq_false_iff]
  intro hnull
  rw [meaning, if_pos hnull] at h
  cases h

namespace Shape

variable {a : Anchors} {n : Nat} {shape : Shape}

/-- Whether a text is read as itself where the shape is expected. -/
def TakesText : Shape → Prop
  | .text | .optional | .value | .kept => True
  | _ => False

theorem scalar?_textNode (h : shape.TakesText) (s : String) :
    shape.scalar? none (Style.ofText s == .plain) s = some (.string s) := by
  by_cases hplain : Style.ofText s = .plain
  · have hmeaning := Style.meaning_of_plain hplain
    rw [beq_iff_eq.2 hplain]
    cases shape with
    | text => rfl
    | optional =>
      simp only [scalar?, isNothing?, Bool.not_true, Bool.false_eq_true, if_false,
        Scalar.not_null_of_meaning hmeaning, Option.map_some]
    | value | kept =>
      simp only [scalar?, Scalar.tree?, if_true, hmeaning, Scalar.Meaning.tree?]
    | ignored | list | record => exact h.elim
  · rw [beq_eq_false_iff_ne.2 hplain]
    cases shape with
    | text | optional | value | kept => rfl
    | ignored | list | record => exact h.elim

/-! ### Reading nodes -/

theorem tree_scalar (h : shape ≠ .ignored) (p : Properties Nat) (plain : Bool) (s : String) :
    tree a n shape (.scalar p plain s) = (shape.scalar? p.tag plain s).elim failure pure := by
  cases shape with
  | ignored => exact absurd rfl h
  | _ => cases n <;> rfl

theorem tree_textNode (h : shape.TakesText) (s : String) :
    tree a n shape (Tree.textNode s) = pure (.string s) := by
  rw [Tree.textNode, tree_scalar (by rintro rfl; exact h), scalar?_textNode h]
  rfl

theorem tree_sequence_zero (h : shape ≠ .ignored) (p : Properties Nat) (items : List (Node Nat)) :
    tree a 0 shape (.sequence p items) = failure := by
  cases shape with
  | ignored => exact absurd rfl h
  | _ => rfl

theorem tree_mapping_zero (h : shape ≠ .ignored) (p : Properties Nat)
    (entries : List (Node Nat × Node Nat)) : tree a 0 shape (.mapping p entries) = failure := by
  cases shape with
  | ignored => exact absurd rfl h
  | _ => rfl

/-- Reads the entry of a mapping. -/
def entry (a : Anchors) (n : Nat) (keys shape : Shape) (e : Node Nat × Node Nat) :
    Reading (Tree × Tree) := do
  let k ← tree a n keys e.1
  let v ← match k with
    | .string key => tree a n (shape.field key) e.2
    | _ => tree a n shape e.2
  return (k, v)

theorem tree_sequence (h : shape ≠ .ignored) (p : Properties Nat) (items : List (Node Nat)) :
    tree a (n + 1) shape (.sequence p items) = do
      let inner ← (shape.items? p.tag).elim failure pure
      return .array (← items.mapM (tree a n inner)) := by
  cases shape with
  | ignored => exact absurd rfl h
  | _ => rfl

theorem tree_mapping (h : shape ≠ .ignored) (p : Properties Nat)
    (entries : List (Node Nat × Node Nat)) :
    tree a (n + 1) shape (.mapping p entries) = do
      let keys ← (shape.keys? p.tag).elim failure pure
      return mapping (← entries.mapM (entry a n keys shape)) := by
  cases shape with
  | ignored => exact absurd rfl h
  | _ => rfl

/-- A list is read whole, or not at all if one of its parts cannot be read. -/
theorem mapM_of_forall {α β γ : Type} {f : β → Reading γ} {e : α → β} {g : α → γ} {p : α → Prop}
    [DecidablePred p] {list : List α}
    (h : ∀ x ∈ list, f (e x) = if p x then pure (g x) else failure) :
    (list.map e).mapM f = if ∀ x ∈ list, p x then pure (list.map g) else failure := by
  induction list with
  | nil => simp
  | cons x rest ih =>
    obtain ⟨hx, hrest⟩ := List.forall_mem_cons.1 h
    rw [List.map_cons, List.mapM_cons, hx, ih hrest]
    by_cases hp : p x
    · by_cases hall : ∀ y ∈ rest, p y
      · rw [if_pos hp, if_pos hall, if_pos (List.forall_mem_cons.2 ⟨hp, hall⟩)]
        rfl
      · rw [if_pos hp, if_neg hall, if_neg fun hboth => hall (List.forall_mem_cons.1 hboth).2]
        rfl
    · rw [if_neg hp, if_neg fun hboth => hp (List.forall_mem_cons.1 hboth).1]
      rfl

/-- A tree is read from its node where a shape is expected, if it is nested no deeper than
allowed. -/
def Reads (a : Anchors) (shape : Shape) (t : Tree) : Prop :=
  ∀ n, tree a n shape t.node = if t.depth ≤ n then pure t else failure

theorem reads_string (h : shape.TakesText) (s : String) : Reads a shape (.string s) :=
  fun n => (tree_textNode h s).trans (if_pos (Nat.zero_le n)).symm

theorem reads_array {inner : Shape} {items : List Tree} (hinner : shape.items? none = some inner)
    (h : ∀ item ∈ items, Reads a inner item) : Reads a shape (.array items) := by
  have hshape : shape ≠ .ignored := by
    rintro rfl
    cases hinner
  intro n
  rw [Tree.node, Tree.itemNodes_eq, Tree.depth]
  cases n with
  | zero => rw [tree_sequence_zero hshape, if_neg (Nat.not_succ_le_zero _)]
  | succ n =>
    have hitems : (items.map Tree.node).mapM (tree a n inner) =
        if ∀ item ∈ items, item.depth ≤ n then pure (items.map id) else failure :=
      mapM_of_forall fun item hitem => h item hitem n
    simp only [tree_sequence hshape, hinner, Option.elim_some, pure_bind, hitems, List.map_id,
      Nat.add_le_add_iff_right, Tree.depthItems_le]
    split <;> rfl

theorem mapping_strings (members : List (String × Tree)) :
    mapping (members.map fun m => (.string m.1, m.2)) = .object members := by
  have hkeys : (members.map fun m => (Tree.string m.1, m.2)).mapM key? = some members := by
    induction members with
    | nil => rfl
    | cons m rest ih =>
      rw [List.map_cons, List.mapM_cons, ih]
      rfl
  unfold mapping
  rw [hkeys]

theorem entry_textNode {keys : Shape} (hkeys : keys.TakesText) {m : String × Tree}
    (h : Reads a (shape.field m.1) m.2) :
    entry a n keys shape (Tree.textNode m.1, m.2.node) =
      if m.2.depth ≤ n then pure (.string m.1, m.2) else failure := by
  unfold entry
  rw [tree_textNode hkeys, pure_bind]
  dsimp only
  rw [h n]
  split <;> rfl

theorem reads_object {keys : Shape} {members : List (String × Tree)}
    (hkeys : shape.keys? none = some keys) (htext : keys.TakesText)
    (h : ∀ m ∈ members, Reads a (shape.field m.1) m.2) : Reads a shape (.object members) := by
  have hshape : shape ≠ .ignored := by
    rintro rfl
    cases hkeys
  intro n
  rw [Tree.node, Tree.memberNodes_eq, Tree.depth]
  cases n with
  | zero => rw [tree_mapping_zero hshape, if_neg (Nat.not_succ_le_zero _)]
  | succ n =>
    have hmembers : (members.map fun m => (Tree.textNode m.1, m.2.node)).mapM
        (entry a n keys shape) = if ∀ m ∈ members, m.2.depth ≤ n then
          pure (members.map fun m => (Tree.string m.1, m.2)) else failure :=
      mapM_of_forall fun m hm => entry_textNode htext (h m hm)
    simp only [tree_mapping hshape, hkeys, Option.elim_some, pure_bind, hmembers,
      Nat.add_le_add_iff_right, Tree.depthMembers_le]
    split
    · rw [pure_bind, mapping_strings]
    · rfl

/-! ### Values -/

/-- Whether any value is expected. -/
def TakesValue : Shape → Prop
  | .value | .kept => True
  | _ => False

theorem TakesValue.takesText (h : shape.TakesValue) : shape.TakesText := by
  cases shape with
  | value | kept => trivial
  | text | optional | ignored | list | record => exact h.elim

theorem TakesValue.items (h : shape.TakesValue) : shape.items? none = some shape := by
  cases shape with
  | value | kept => rfl
  | text | optional | ignored | list | record => exact h.elim

theorem TakesValue.keys (h : shape.TakesValue) :
    ∃ keys, shape.keys? none = some keys ∧ keys.TakesText := by
  cases shape with
  | value => exact ⟨.text, rfl, trivial⟩
  | kept => exact ⟨.kept, rfl, trivial⟩
  | text | optional | ignored | list | record => exact h.elim

theorem TakesValue.field (h : shape.TakesValue) (key : String) : shape.field key = shape := by
  cases shape with
  | value | kept => rfl
  | text | optional | ignored | list | record => exact h.elim

theorem reads_meaning (h : shape.TakesValue) {t : Tree} {s : String}
    (hnode : (t.node : Node Nat) = .scalar {} true s) (hdepth : t.depth = 0)
    (hmeaning : Scalar.Meaning.tree? s (Scalar.meaning s) = some t) : Reads a shape t := by
  intro n
  have hread : shape.scalar? none true s = some t := by
    cases shape with
    | value | kept => exact hmeaning
    | text | optional | ignored | list | record => exact h.elim
  rw [hnode, tree_scalar (by rintro rfl; exact h), hread, hdepth, if_pos (Nat.zero_le n)]
  rfl

theorem reads_number (h : shape.TakesValue) (x : Json.Number) : Reads a shape (.number x) := by
  refine reads_meaning h rfl rfl ?_
  cases x with
  | integer n bounds =>
    have htext : Printer.leaf 0 (.number (.integer n bounds)) = Json.Number.integerText n := rfl
    rw [htext, Scalar.meaning_integer bounds]
    exact congrArg (Option.map Tree.number) (dif_pos bounds)
  | float x =>
    have htext : Printer.leaf 0 (.number (.float x)) = Printer.layout.write x := rfl
    rw [htext, Scalar.meaning_float]
    rfl

theorem reads_null (h : shape.TakesValue) : Reads a shape .null :=
  reads_meaning h (s := "null") rfl rfl rfl

theorem reads_bool (h : shape.TakesValue) (b : Bool) : Reads a shape (.bool b) := by
  cases b
  · exact reads_meaning h (s := "false") rfl rfl rfl
  · exact reads_meaning h (s := "true") rfl rfl rfl

mutual

/-- **A value is read from its node**, if it is nested no deeper than allowed. -/
theorem reads_valued (h : shape.TakesValue) (t : Tree) (hvalued : t.Valued) :
    Reads a shape t := by
  match t with
  | .null => exact reads_null h
  | .bool b => exact reads_bool h b
  | .number x => exact reads_number h x
  | .string s => exact reads_string h.takesText s
  | .array items =>
    exact reads_array h.items (reads_valued_items h items (Tree.valued_array.1 hvalued))
  | .object members =>
    obtain ⟨keys, hkeys, htext⟩ := h.keys
    refine reads_object hkeys htext fun m hm => ?_
    rw [h.field]
    exact reads_valued_members h members (Tree.valued_object.1 hvalued) m hm
  | .infinite | .unkeyed | .unreadable | .broken =>
    exact (hvalued _ (List.mem_singleton_self _)).elim

theorem reads_valued_items (h : shape.TakesValue) (items : List Tree)
    (hvalued : ∀ item ∈ items, item.Valued) : ∀ item ∈ items, Reads a shape item := by
  match items with
  | [] => exact List.forall_mem_nil _
  | item :: rest =>
    obtain ⟨hitem, hrest⟩ := List.forall_mem_cons.1 hvalued
    exact List.forall_mem_cons.2 ⟨reads_valued h item hitem, reads_valued_items h rest hrest⟩

theorem reads_valued_members (h : shape.TakesValue) (members : List (String × Tree))
    (hvalued : ∀ m ∈ members, m.2.Valued) : ∀ m ∈ members, Reads a shape m.2 := by
  match members with
  | [] => exact List.forall_mem_nil _
  | (name, item) :: rest =>
    obtain ⟨hitem, hrest⟩ := List.forall_mem_cons.1 hvalued
    exact List.forall_mem_cons.2 ⟨reads_valued h item hitem, reads_valued_members h rest hrest⟩

end

end Shape

end Yaml

end Flowgraph
