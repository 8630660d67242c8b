import Flowgraph.Proofs.Definition.Verdict
import Flowgraph.Proofs.Graph.Rounds
import Flowgraph.Proofs.Text.ByteOrder

/-!
# Cycles of references

Steps that share an id share a node of the graph, ids that are blank cannot be referred to, and
references that do not resolve lead nowhere (`Links`). In the graph that is left, the check finds
cycles exactly: it names the ids that a path leads to from an id on a cycle, and it says nothing
exactly if there is no cycle (`cycles_exact`). This holds of every definition, whatever else is
wrong with it, and of the loop with its counters and tables as of the value that it computes.
-/

set_option autoImplicit false

namespace Flowgraph.Definition

open Relation

variable {d : Definition} {u v : String}

/-- Whether a step with the id `u` refers to `v`, and `v` is the id of a step and not blank. -/
def Links (d : Definition) (u v : String) : Prop :=
  d.Mentions u v ∧ v ∈ d.ids ∧ Text.Visible v

/-- The edges of the graph are the references that lead to a step. -/
theorem edge_graph_eq : d.graph.Edge = d.Links := by
  funext u v
  rw [edge_graph, mem_knownIds, ← Text.visible_iff]
  rfl

theorem nodes_graph_eq : v ∈ d.graph.nodes ↔ v ∈ d.ids := by
  rw [mem_nodes_graph, ids, List.mem_map]

/-- What is stuck are the ids that cycles lead to. -/
theorem mem_stuck_graph :
    v ∈ d.graph.stuck ↔ ∃ u, TransGen d.Links u u ∧ ReflTransGen d.Links u v := by
  rw [Graph.mem_stuck_iff_cycle graph_wellFormed, edge_graph_eq, nodes_graph_eq]
  refine and_iff_right_of_imp ?_
  rintro ⟨u, hcycle, hpath⟩
  -- a path that leads on from a cycle ends with a reference to a step
  obtain ⟨_, -, hlast⟩ := TransGen.tail'_iff.1 (hcycle.trans_left hpath)
  exact hlast.2.1

/-- The graph has no more nodes than the definition has steps. -/
theorem length_nodes_graph : d.graph.nodes.length ≤ d.steps.length := by
  have hsub : d.graph.nodes ⊆ d.ids := fun v hv => nodes_graph_eq.1 hv
  simpa [ids] using (graph_wellFormed.nodes.subperm hsub).length_le

/-- What is stuck is listed in the order of the bytes, each id once. -/
theorem pairwise_bytes_stuck :
    d.graph.stuck.Pairwise fun u v => Text.bytes u < Text.bytes v := by
  have hlt : d.graph.stuck.Pairwise (· < ·) :=
    (Graph.pairwise_stuck.and (Graph.nodup_stuck graph_wellFormed)).imp fun h =>
      lt_of_le_of_ne h.1 h.2
  exact hlt.imp Text.bytes_lt_bytes

/-- **Cycles are found exactly.** Of every definition there is one answer that the loop comes to
with more fuel than there are steps, whatever the order of its tables, and with no counter going
below zero. There is none exactly if no path of references leads from an id back to itself. Else
the answer is a list of ids, ascending by their bytes: those that a path of any length leads to
from an id that lies on a cycle. This is what the check reports. -/
theorem cycles_exact (d : Definition) : ∃ answer : Option (List String),
    (∀ ids rows before after fuel, d.steps.length < fuel →
      d.graph.findCycle ids rows before after fuel = some answer) ∧
    d.cycleFindings = (answer.map fun ids => (⟨none, .cycle ids⟩ : Finding)).toList ∧
    (answer = none ↔ ∀ id, ¬ TransGen d.Links id id) ∧
    ∀ ids, answer = some ids →
      ids.Pairwise (fun u v => u.toUTF8.data.toList < v.toUTF8.data.toList) ∧
      ∀ v, v ∈ ids ↔ ∃ u, TransGen d.Links u u ∧ ReflTransGen d.Links u v := by
  refine ⟨if d.graph.stuck = [] then none else some d.graph.stuck, ?_, ?_, ?_, ?_⟩
  · intro ids rows before after fuel hfuel
    exact Graph.findCycle_eq graph_wellFormed ids rows before after
      (Nat.lt_of_le_of_lt length_nodes_graph hfuel)
  · unfold cycleFindings
    cases d.graph.stuck <;> rfl
  · have hnone : d.graph.stuck = [] ↔ ∀ id, ¬ TransGen d.Links id id := by
      rw [Graph.stuck_eq_nil_iff_acyclic graph_wellFormed, Graph.Acyclic, edge_graph_eq]
    rw [← hnone]
    simp
  · intro ids hids
    obtain rfl := Option.some.inj (Option.ite_none_left_eq_some.1 hids).2
    exact ⟨pairwise_bytes_stuck, fun v => mem_stuck_graph⟩

end Flowgraph.Definition
