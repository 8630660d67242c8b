import Flowgraph.Proofs.Definition.References

/-!
# Normal definitions

A definition can say the same thing in more than one way: it may leave the name of a step or the
root open, and refer to steps that do not exist. `Definition.normal` settles all of this and
changes nothing else: the order of the steps, what they do, and the order and the number of the
references that resolve stay as they are. A definition that leaves nothing open is its own normal
form (`normal_eq_self`), and a look-up finds the normal form of what it found before
(`find?_normal`).
-/

set_option autoImplicit false

namespace Flowgraph

/-- Work with only those of its references that lead to known ids. -/
def Work.keep (known : List String) : Work → Work
  | .activity call => .activity call
  | .sequence steps => .sequence (steps.filter (· ∈ known))
  | .parallel branches => .parallel (branches.filter (· ∈ known))
  | .condition choice => .condition
    { choice with
      onSuccess := choice.onSuccess.filter (· ∈ known)
      onFailure := choice.onFailure.filter (· ∈ known) }

/-- A step with a name and with only those of its references that lead to known ids. -/
def Step.normal (known : List String) (s : Step) : Step where
  id := s.id
  name := some (s.name.getD s.id)
  work := s.work.keep known
  next := s.next.filter (· ∈ known)

namespace Definition

/-- The ids of the steps. -/
def ids (d : Definition) : List String := d.steps.map (·.id)

/-- A definition of the current version with a root, unless there are no steps, with names for
all steps and with only those of their references that resolve. -/
def normal (d : Definition) : Definition where
  name := d.name
  description := d.description
  version := "1.0"
  root := if d.root = "" then (d.steps.head?.map (·.id)).getD "" else d.root
  steps := d.steps.map (Step.normal d.ids)

end Definition

variable {known : List String}

/-! ### What is normal already -/

theorem filter_known {targets : List String} (h : ∀ t ∈ targets, t ∈ known) :
    targets.filter (· ∈ known) = targets :=
  List.filter_eq_self.2 fun t ht => by simpa using h t ht

theorem filter_known_option {target : Option String} (h : ∀ t, target = some t → t ∈ known) :
    target.filter (· ∈ known) = target := by
  cases target with
  | none => rfl
  | some t => simpa using h t rfl

/-- Work all of whose references lead to known ids is kept as it is. -/
theorem Work.keep_eq_self {w : Work} (h : ∀ r ∈ w.references, r.target ∈ known) :
    w.keep known = w := by
  cases w with
  | activity call => rfl
  | sequence steps =>
    have hsteps : ∀ t ∈ steps, t ∈ known := fun t ht =>
      h ⟨.steps, t⟩ (List.mem_map_of_mem ht)
    rw [Work.keep, filter_known hsteps]
  | parallel branches =>
    have hbranches : ∀ t ∈ branches, t ∈ known := fun t ht =>
      h ⟨.branches, t⟩ (List.mem_map_of_mem ht)
    rw [Work.keep, filter_known hbranches]
  | condition choice =>
    have hsuccess : ∀ t, choice.onSuccess = some t → t ∈ known := fun t ht =>
      h ⟨.onSuccess, t⟩ (List.mem_append_left _ (by simp [ht]))
    have hfailure : ∀ t, choice.onFailure = some t → t ∈ known := fun t ht =>
      h ⟨.onFailure, t⟩ (List.mem_append_right _ (by simp [ht]))
    rw [Work.keep, filter_known_option hsuccess, filter_known_option hfailure]

/-- A step with a name, all of whose references lead to known ids, is normal. -/
theorem Step.normal_eq_self {s : Step} (hname : s.name.isSome)
    (h : ∀ r ∈ s.references, r.target ∈ known) : s.normal known = s := by
  obtain ⟨name, hname⟩ := Option.isSome_iff_exists.1 hname
  have hwork : s.work.keep known = s.work :=
    Work.keep_eq_self fun r hr => h r (List.mem_append_left _ hr)
  have hnext : s.next.filter (· ∈ known) = s.next := filter_known_option fun t ht =>
    h ⟨.next, t⟩ (List.mem_append_right _ (by simp [ht]))
  rw [Step.normal, hwork, hnext, hname, Option.getD_some, ← hname]

namespace Definition

variable {d : Definition} {id : String}

/-- Nothing is left open by a definition with names for all steps and only references that resolve,
whose root is the first step if it is not set. -/
theorem normal_eq_self_of_root (hversion : d.version = "1.0")
    (hnames : ∀ s ∈ d.steps, s.name.isSome)
    (hroot : d.root = "" → (d.steps.head?.map (·.id)).getD "" = "")
    (htargets : ∀ s ∈ d.steps, ∀ r ∈ s.references, r.target ∈ d.ids) : d.normal = d := by
  have hsteps : d.steps.map (Step.normal d.ids) = d.steps := by
    conv_rhs => rw [← List.map_id d.steps]
    exact List.map_congr_left fun s hs => Step.normal_eq_self (hnames s hs) (htargets s hs)
  have hsame : (if d.root = "" then (d.steps.head?.map (·.id)).getD "" else d.root) = d.root := by
    split
    · rw [hroot ‹_›, ‹d.root = ""›]
    · rfl
  rw [normal, hsame, hsteps, ← hversion]

/-- **A definition that leaves nothing open is its own normal form.** -/
theorem normal_eq_self (hversion : d.version = "1.0") (hnames : ∀ s ∈ d.steps, s.name.isSome)
    (hroot : d.root ≠ "") (htargets : ∀ s ∈ d.steps, ∀ r ∈ s.references, r.target ∈ d.ids) :
    d.normal = d :=
  normal_eq_self_of_root hversion hnames (fun h => absurd h hroot) htargets

/-! ### Looking steps up -/

theorem find?_isSome_iff : (d.find? id).isSome ↔ id ∈ d.ids := by
  simp [find?, ids, List.find?_isSome]

theorem find?_eq_none_of_notMem (h : id ∉ d.ids) : d.find? id = none := by
  rw [← find?_isSome_iff] at h
  simpa using h

/-- In the normal form one finds the normal forms of the steps. -/
theorem find?_normal : d.normal.find? id = (d.find? id).map (Step.normal d.ids) := by
  unfold find? normal
  rw [List.find?_map]
  rfl

end Definition

end Flowgraph
