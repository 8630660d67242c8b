import Flowgraph.Tree
import Flowgraph.Decode.Basic

/-!
# Leaves and nesting of trees

What a tree is made of: its leaves, and how many containers lie within each other. A tree is
`Valued` if every leaf has a value, as the written form of anything is; it `Fits` a number of
levels if it is nested no deeper and no number in it is infinite, as a tree read from JSON text is.
-/

set_option autoImplicit false

namespace Flowgraph.Tree

variable {items : List Tree} {members : List (String × Tree)} {n : Nat}

mutual

/-- The parts of a tree that are no containers. -/
def leaves : Tree → List Tree
  | .array items => leavesItems items
  | .object members => leavesMembers members
  | leaf => [leaf]

/-- `leaves` for the items of an array. -/
def leavesItems : List Tree → List Tree
  | [] => []
  | item :: rest => item.leaves ++ leavesItems rest

/-- `leaves` for the members of an object. -/
def leavesMembers : List (String × Tree) → List Tree
  | [] => []
  | (_, item) :: rest => item.leaves ++ leavesMembers rest

end

mutual

/-- How many containers lie within each other. -/
def depth : Tree → Nat
  | .array items => depthItems items + 1
  | .object members => depthMembers members + 1
  | _ => 0

/-- `depth` for the items of an array. -/
def depthItems : List Tree → Nat
  | [] => 0
  | item :: rest => max item.depth (depthItems rest)

/-- `depth` for the members of an object. -/
def depthMembers : List (String × Tree) → Nat
  | [] => 0
  | (_, item) :: rest => max item.depth (depthMembers rest)

end

theorem leavesItems_eq : leavesItems items = items.flatMap leaves := by
  induction items with
  | nil => rfl
  | cons item rest ih => rw [leavesItems, ih, List.flatMap_cons]

theorem leavesMembers_eq : leavesMembers members = members.flatMap (·.2.leaves) := by
  induction members with
  | nil => rfl
  | cons member rest ih => rw [leavesMembers, ih, List.flatMap_cons]

theorem mem_leaves_array {leaf : Tree} :
    leaf ∈ (Tree.array items).leaves ↔ ∃ item ∈ items, leaf ∈ item.leaves := by
  have hleaves : (Tree.array items).leaves = items.flatMap leaves := leavesItems_eq
  rw [hleaves, List.mem_flatMap]

theorem mem_leaves_object {leaf : Tree} :
    leaf ∈ (Tree.object members).leaves ↔ ∃ m ∈ members, leaf ∈ m.2.leaves := by
  have hleaves : (Tree.object members).leaves = members.flatMap (·.2.leaves) := leavesMembers_eq
  rw [hleaves, List.mem_flatMap]

theorem depthItems_le : depthItems items ≤ n ↔ ∀ item ∈ items, item.depth ≤ n := by
  induction items with
  | nil => simp [depthItems]
  | cons item rest ih => rw [depthItems, Nat.max_le, ih, List.forall_mem_cons]

theorem depthMembers_le : depthMembers members ≤ n ↔ ∀ m ∈ members, m.2.depth ≤ n := by
  induction members with
  | nil => simp [depthMembers]
  | cons member rest ih => rw [depthMembers, Nat.max_le, ih, List.forall_mem_cons]

@[simp] theorem depth_null : Tree.null.depth = 0 := rfl

@[simp] theorem depth_bool (b : Bool) : (Tree.bool b).depth = 0 := rfl

@[simp] theorem depth_number (x : Json.Number) : (Tree.number x).depth = 0 := rfl

@[simp] theorem depth_string (s : String) : (Tree.string s).depth = 0 := rfl

/-! ### Trees with a value -/

/-- Whether a leaf has a value of its own. -/
def IsValue : Tree → Prop
  | .infinite | .unkeyed | .unreadable | .broken => False
  | _ => True

/-- Whether every leaf has a value. -/
def Valued (t : Tree) : Prop := ∀ leaf ∈ t.leaves, leaf.IsValue

@[simp] theorem valued_null : Valued .null := List.forall_mem_singleton.2 trivial

@[simp] theorem valued_bool (b : Bool) : Valued (.bool b) := List.forall_mem_singleton.2 trivial

@[simp] theorem valued_number (x : Json.Number) : Valued (.number x) :=
  List.forall_mem_singleton.2 trivial

@[simp] theorem valued_string (s : String) : Valued (.string s) :=
  List.forall_mem_singleton.2 trivial

@[simp] theorem valued_array : Valued (.array items) ↔ ∀ item ∈ items, item.Valued := by
  simp only [Valued, mem_leaves_array]
  exact ⟨fun h item hitem leaf hleaf => h leaf ⟨item, hitem, hleaf⟩,
    fun h leaf ⟨item, hitem, hleaf⟩ => h item hitem leaf hleaf⟩

@[simp] theorem valued_object : Valued (.object members) ↔ ∀ m ∈ members, m.2.Valued := by
  simp only [Valued, mem_leaves_object]
  exact ⟨fun h m hm leaf hleaf => h leaf ⟨m, hm, hleaf⟩,
    fun h leaf ⟨m, hm, hleaf⟩ => h m hm leaf hleaf⟩

mutual

theorem Valued.readable (t : Tree) (h : t.Valued) : t.readable = true := by
  match t with
  | .null | .bool _ | .number _ | .string _ => rfl
  | .array items => exact readable_items items (valued_array.1 h)
  | .object members => exact readable_members members (valued_object.1 h)
  | .infinite | .unkeyed | .unreadable | .broken => exact (h _ (List.mem_singleton_self _)).elim

theorem readable_items (items : List Tree) (h : ∀ item ∈ items, item.Valued) :
    readableItems items = true := by
  match items with
  | [] => rfl
  | item :: rest =>
    obtain ⟨hitem, hrest⟩ := List.forall_mem_cons.1 h
    rw [readableItems, Valued.readable item hitem, readable_items rest hrest]
    rfl

theorem readable_members (members : List (String × Tree)) (h : ∀ m ∈ members, m.2.Valued) :
    readableMembers members = true := by
  match members with
  | [] => rfl
  | (name, item) :: rest =>
    obtain ⟨hitem, hrest⟩ := List.forall_mem_cons.1 h
    rw [readableMembers, Valued.readable item hitem, readable_members rest hrest]
    rfl

end

/-! ### Trees of JSON text -/

/-- Whether a tree is nested no deeper than some levels, with no infinite number in it. -/
def Fits (n : Nat) (t : Tree) : Prop := t.depth ≤ n ∧ Tree.infinite ∉ t.leaves

theorem Fits.of_array (h : (Tree.array items).Fits n) :
    ∃ m, n = m + 1 ∧ ∀ item ∈ items, item.Fits m := by
  obtain ⟨hdepth, hfinite⟩ := h
  simp only [mem_leaves_array, not_exists, not_and] at hfinite
  obtain ⟨m, rfl⟩ := Nat.exists_eq_add_one.2 (Nat.zero_lt_of_lt hdepth)
  exact ⟨m, rfl, fun item hitem =>
    ⟨depthItems_le.1 (Nat.le_of_succ_le_succ hdepth) item hitem, hfinite item hitem⟩⟩

theorem Fits.of_object (h : (Tree.object members).Fits n) :
    ∃ m, n = m + 1 ∧ ∀ e ∈ members, e.2.Fits m := by
  obtain ⟨hdepth, hfinite⟩ := h
  simp only [mem_leaves_object, not_exists, not_and] at hfinite
  obtain ⟨m, rfl⟩ := Nat.exists_eq_add_one.2 (Nat.zero_lt_of_lt hdepth)
  exact ⟨m, rfl, fun e he =>
    ⟨depthMembers_le.1 (Nat.le_of_succ_le_succ hdepth) e he, hfinite e he⟩⟩

theorem Fits.array (h : ∀ item ∈ items, item.Fits n) : (Tree.array items).Fits (n + 1) := by
  refine ⟨Nat.succ_le_succ (depthItems_le.2 fun item hitem => (h item hitem).1), ?_⟩
  simp only [mem_leaves_array, not_exists, not_and]
  exact fun item hitem => (h item hitem).2

theorem Fits.object (h : ∀ m ∈ members, m.2.Fits n) : (Tree.object members).Fits (n + 1) := by
  refine ⟨Nat.succ_le_succ (depthMembers_le.2 fun m hm => (h m hm).1), ?_⟩
  simp only [mem_leaves_object, not_exists, not_and]
  exact fun m hm => (h m hm).2

theorem fits_of_leaf {t : Tree} (hdepth : t.depth = 0) (hleaves : t.leaves = [t])
    (hfinite : Tree.infinite ≠ t) : t.Fits n := by
  refine ⟨Nat.le_trans (Nat.le_of_eq hdepth) (Nat.zero_le n), fun hmem => ?_⟩
  rw [hleaves] at hmem
  exact hfinite (List.mem_singleton.1 hmem)

@[simp] theorem fits_null : Fits n .null := fits_of_leaf rfl rfl nofun

@[simp] theorem fits_bool (b : Bool) : Fits n (.bool b) := fits_of_leaf rfl rfl nofun

@[simp] theorem fits_number (x : Json.Number) : Fits n (.number x) := fits_of_leaf rfl rfl nofun

@[simp] theorem fits_string (s : String) : Fits n (.string s) := fits_of_leaf rfl rfl nofun

@[simp] theorem fits_unreadable : Fits n .unreadable := fits_of_leaf rfl rfl nofun

@[simp] theorem fits_broken : Fits n .broken := fits_of_leaf rfl rfl nofun

end Flowgraph.Tree
