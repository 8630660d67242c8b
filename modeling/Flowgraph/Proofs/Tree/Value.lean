import Flowgraph.Proofs.Assoc
import Flowgraph.Proofs.Tree.Leaves

/-!
# Values and their trees

The tree of a value whose members are in order has that value (`value?_ofValue`). Any tree that has
a value has one whose members are in order, and its own tree is nested no deeper (`Read`).
-/

set_option autoImplicit false

namespace Flowgraph

open Json (Value)

namespace Tree

theorem ofItems_eq (items : List Value) : ofItems items = items.map ofValue := by
  induction items with
  | nil => rfl
  | cons v rest ih => rw [ofItems, ih, List.map_cons]

theorem ofMembers_eq (members : List (String × Value)) :
    ofMembers members = members.map fun m => (m.1, ofValue m.2) := by
  induction members with
  | nil => rfl
  | cons m rest ih => rw [ofMembers, ih, List.map_cons]

/-! ### Every value has a tree -/

mutual

theorem valued_ofValue (v : Value) : (ofValue v).Valued := by
  match v with
  | .null => exact valued_null
  | .bool b => exact valued_bool b
  | .number n => exact valued_number n
  | .string s => exact valued_string s
  | .array items => exact valued_array.2 (valued_ofItems items)
  | .object members => exact valued_object.2 (valued_ofMembers members)

theorem valued_ofItems (items : List Value) : ∀ item ∈ ofItems items, item.Valued := by
  match items with
  | [] => exact List.forall_mem_nil _
  | v :: rest => exact List.forall_mem_cons.2 ⟨valued_ofValue v, valued_ofItems rest⟩

theorem valued_ofMembers (members : List (String × Value)) :
    ∀ m ∈ ofMembers members, m.2.Valued := by
  match members with
  | [] => exact List.forall_mem_nil _
  | (_, v) :: rest => exact List.forall_mem_cons.2 ⟨valued_ofValue v, valued_ofMembers rest⟩

end

mutual

/-- The tree of a value has that value. -/
theorem value?_ofValue (v : Value) (h : v.Ordered) : (ofValue v).value? = some v := by
  match v with
  | .null | .bool _ | .number _ | .string _ => rfl
  | .array items => 
    rw [ofValue, value?, items?_ofItems items h]
    rfl
  | .object members =>
    rw [ofValue, value?, members?_ofMembers members h.2, Option.map_some,
      Assoc.ascending_of_ascending h.1]

theorem items?_ofItems (items : List Value) (h : Value.OrderedItems items) :
    items? (ofItems items) = some items := by
  match items with
  | [] => rfl
  | v :: rest =>
    rw [ofItems, items?, value?_ofValue v h.1, items?_ofItems rest h.2]
    rfl

theorem members?_ofMembers (members : List (String × Value)) (h : Value.OrderedMembers members) :
    members? (ofMembers members) = some members := by
  match members with
  | [] => rfl
  | (key, v) :: rest =>
    rw [ofMembers, members?, value?_ofValue v h.1, members?_ofMembers rest h.2]
    rfl

end

/-! ### What has a value -/

theorem orderedItems_iff {items : List Value} :
    Value.OrderedItems items ↔ ∀ v ∈ items, v.Ordered := by
  induction items with
  | nil => simp [Value.OrderedItems]
  | cons v rest ih => rw [Value.OrderedItems, ih, List.forall_mem_cons]

theorem orderedMembers_iff {members : List (String × Value)} :
    Value.OrderedMembers members ↔ ∀ m ∈ members, m.2.Ordered := by
  induction members with
  | nil => simp [Value.OrderedMembers]
  | cons m rest ih => rw [Value.OrderedMembers, ih, List.forall_mem_cons]

/-- What is known of a value that has been read from a tree nested so many levels deep. -/
def Read (n : Nat) (v : Value) : Prop := v.Ordered ∧ (ofValue v).depth ≤ n

theorem Read.mono {m n : Nat} {v : Value} (h : Read m v) (hle : m ≤ n) : Read n v :=
  ⟨h.1, Nat.le_trans h.2 hle⟩

mutual

theorem read_of_value? (t : Tree) {v : Value} (h : t.value? = some v) : Read t.depth v := by
  match t with
  | .null | .infinite => obtain rfl := Option.some.inj h; exact ⟨trivial, Nat.zero_le _⟩
  | .bool b => obtain rfl := Option.some.inj h; exact ⟨trivial, Nat.zero_le _⟩
  | .number n => obtain rfl := Option.some.inj h; exact ⟨trivial, Nat.zero_le _⟩
  | .string s => obtain rfl := Option.some.inj h; exact ⟨trivial, Nat.zero_le _⟩
  | .array items =>
    obtain ⟨vs, hvs, rfl⟩ := Option.map_eq_some_iff.1 h
    have hread := read_of_items? items hvs
    refine ⟨orderedItems_iff.2 fun v hv => (hread v hv).1, Nat.succ_le_succ (depthItems_le.2 ?_)⟩
    rw [ofItems_eq]
    exact List.forall_mem_map.2 fun v hv => (hread v hv).2
  | .object members =>
    obtain ⟨ms, hms, rfl⟩ := Option.map_eq_some_iff.1 h
    have hread : ∀ m ∈ Assoc.ascending ms, Read (depthMembers members) m.2 := fun m hm =>
      read_of_members? members hms m (Assoc.mem_of_mem_ascending hm)
    refine ⟨⟨Assoc.ascending_ascending ms, orderedMembers_iff.2 fun m hm => (hread m hm).1⟩,
      Nat.succ_le_succ (depthMembers_le.2 ?_)⟩
    rw [ofMembers_eq]
    exact List.forall_mem_map.2 fun m hm => (hread m hm).2
  | .unkeyed | .unreadable | .broken => cases h

theorem read_of_items? (items : List Tree) {vs : List Value} (h : items? items = some vs) :
    ∀ v ∈ vs, Read (depthItems items) v := by
  match items with
  | [] => obtain rfl := Option.some.inj h; exact List.forall_mem_nil _
  | item :: rest =>
    obtain ⟨v, hv, hvs⟩ := Option.bind_eq_some_iff.1 h
    obtain ⟨more, hmore, hcons⟩ := Option.bind_eq_some_iff.1 hvs
    obtain rfl := Option.some.inj hcons
    refine List.forall_mem_cons.2 ⟨(read_of_value? item hv).mono (Nat.le_max_left ..), ?_⟩
    exact fun v hv => (read_of_items? rest hmore v hv).mono (Nat.le_max_right ..)

theorem read_of_members? (members : List (String × Tree)) {ms : List (String × Value)}
    (h : members? members = some ms) : ∀ m ∈ ms, Read (depthMembers members) m.2 := by
  match members with
  | [] => obtain rfl := Option.some.inj h; exact List.forall_mem_nil _
  | (key, item) :: rest =>
    obtain ⟨v, hv, hvs⟩ := Option.bind_eq_some_iff.1 h
    obtain ⟨more, hmore, hcons⟩ := Option.bind_eq_some_iff.1 hvs
    obtain rfl := Option.some.inj hcons
    refine List.forall_mem_cons.2 ⟨(read_of_value? item hv).mono (Nat.le_max_left ..), ?_⟩
    exact fun m hm => (read_of_members? rest hmore m hm).mono (Nat.le_max_right ..)

end

end Tree

end Flowgraph
