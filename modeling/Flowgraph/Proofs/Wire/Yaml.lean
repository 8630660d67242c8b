import Flowgraph.Definition.Yaml
import Flowgraph.Proofs.Wire.Definition
import Flowgraph.Proofs.Yaml.Document

/-!
# Definitions as YAML are read back

The scalars of a definition are read as they are written where a text is expected, and by their
meaning in the arguments of a step, which the printer has taken care of. The reader allows for a
number of collections within each other (`Yaml.Shape.depthLimit`); the printer does not.
-/

set_option autoImplicit false

namespace Flowgraph

open Yaml (Shape)
open Yaml.Shape (Reads Anchors)

variable {a : Anchors}

/-- A text that may be missing. -/
theorem reads_text? {shape : Shape} {name : String} (h : (shape.field name).TakesText)
    (text : Option String) :
    ∀ m ∈ Tree.text? name text, Reads a (shape.field m.1) m.2 := by
  cases text with
  | none => exact List.forall_mem_nil _
  | some s => exact List.forall_mem_singleton.2 (Shape.reads_string h s)

namespace Step

/-- The fields of the work of a step are none of its own. -/
theorem field_of_work {name : String} (h : name ∈ "type" :: Work.contentNames) :
    shape.field name = .kept := by
  simp only [Work.contentNames, List.mem_cons, List.not_mem_nil, or_false] at h
  rcases h with rfl | rfl | rfl | rfl | rfl | rfl | rfl | rfl <;> rfl

/-- A step is read from its node. -/
theorem reads_encode (s : Step) : Reads a shape s.encode := by
  have hwork : ∀ m ∈ s.work.encode, Reads a (shape.field m.1) m.2 := fun m hm => by
    rw [field_of_work (s.work.within_encode m hm)]
    exact Shape.reads_valued (by trivial) m.2 (s.work.valued m hm)
  refine Shape.reads_object rfl trivial ?_
  simp only [List.forall_mem_append, List.forall_mem_cons, List.cons_append]
  refine ⟨Shape.reads_string ?_ s.id, ⟨reads_text? ?_ s.name, hwork⟩, reads_text? ?_ s.next⟩ <;>
    exact trivial

end Step

namespace Definition

/-- A definition is read from its node. -/
theorem reads_encode (d : Definition) : Reads a shape d.encode := by
  have hsteps : ∀ t ∈ d.steps.map Step.encode, Reads a Step.shape t :=
    List.forall_mem_map.2 fun s _ => s.reads_encode
  refine Shape.reads_object rfl trivial ?_
  simp only [List.forall_mem_append, List.forall_mem_cons, List.cons_append]
  refine ⟨Shape.reads_string ?_ d.name, reads_text? ?_ d.description,
    Shape.reads_string ?_ d.version, Shape.reads_string ?_ d.root,
    Shape.reads_array rfl hsteps, List.forall_mem_nil _⟩ <;> exact trivial

/-- The tree of the YAML text of a definition. -/
theorem read?_toYaml (d : Definition) : shape.read? d.toYaml =
    if d.encode.depth ≤ Shape.depthLimit then some d.encode else none :=
  Shape.read?_write fun _ => d.reads_encode

/-- **A definition is read from its YAML text**, unless it is nested deeper than the reader
allows; then its text is not read at all. -/
theorem yaml_roundTrip (d : Definition) (hproper : d.Proper) : ofYaml? d.toYaml =
    if d.encode.depth ≤ Shape.depthLimit then some d else none := by
  unfold ofYaml?
  rw [read?_toYaml]
  split
  · simp only [bind, Option.bind_some, faithful.reads .direct d hproper]
    rfl
  · rfl

/-- A definition with texts that cannot stand by themselves, and numbers among its arguments. -/
def awkward : Definition where
  name := ""
  description := some "two lines\nand a break\n\n"
  version := "1.0"
  root := "null"
  steps := [{
    id := "null"
    name := some " # no comment "
    work := .activity {
      activity := "it's: here"
      arguments := [("- 1", .array [.string "true", .string "\u0001\t", .null]),
        ("", .object [("a", .number (.float ⟨true, 1021 * fractionSize, by decide⟩)),
          ("~", .bool false)])] } }]

theorem yaml_roundTrip_awkward : awkward.Proper ∧ awkward.encode.depth ≤ Shape.depthLimit ∧
    ofYaml? awkward.toYaml = some awkward := by
  have hproper : awkward.Proper := by
    have hdistinct : ["- 1", ""].Nodup := by decide
    have hascending : ["a", "~"].Pairwise (· < ·) := by decide
    exact List.forall_mem_singleton.2 ⟨hdistinct, ⟨trivial, trivial, trivial, trivial⟩,
      ⟨hascending, trivial, trivial, trivial⟩, trivial⟩
  have hdepth : awkward.encode.depth ≤ Shape.depthLimit := by decide
  exact ⟨hproper, hdepth, (yaml_roundTrip awkward hproper).trans (if_pos hdepth)⟩

/-- Lists within each other. -/
def lists : Nat → Json.Value
  | 0 => .array []
  | n + 1 => .array [lists n]

/-- A definition with lists within each other as an argument. -/
def nesting (n : Nat) : Definition where
  name := "nesting"
  root := "log"
  steps := [{
    id := "log"
    work := .activity { activity := "log", arguments := [("data", lists n)] } }]

theorem ordered_lists (n : Nat) : (lists n).Ordered := by
  induction n with
  | zero => trivial
  | succ n ih => exact ⟨ih, trivial⟩

theorem depth_lists (n : Nat) : (Tree.ofValue (lists n)).depth = n + 1 := by
  induction n with
  | zero => rfl
  | succ n ih => simp [lists, Tree.ofValue, Tree.ofItems, Tree.depth, Tree.depthItems, ih]

theorem depth_nesting (n : Nat) : (nesting n).encode.depth = n + 5 := by
  simp [nesting, encode, Step.encode, Work.encode, Call.encode, Arguments.member?, Tree.text?,
    Tree.member?, Tree.ofMembers, Tree.depth, Tree.depthItems, Tree.depthMembers, depth_lists]

/-- Definitions that are nested deeper than the reader allows are written nevertheless. -/
theorem yaml_roundTrip_deep : (nesting 124).Proper ∧
    ofYaml? (nesting 124).toYaml ≠ some (nesting 124) := by
  have hproper : (nesting 124).Proper :=
    List.forall_mem_singleton.2 ⟨List.nodup_singleton _, ordered_lists 124, trivial⟩
  refine ⟨hproper, ?_⟩
  have hdeep : ¬(nesting 124).encode.depth ≤ Shape.depthLimit := by
    rw [depth_nesting]
    decide
  unfold ofYaml?
  rw [read?_toYaml, if_neg hdeep]
  rintro ⟨⟩

end Definition

end Flowgraph
