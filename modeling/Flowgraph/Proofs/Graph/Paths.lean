import Flowgraph.Proofs.Graph.Peeling
import Mathlib.Data.List.Sort
import Mathlib.Data.Set.Finite.Basic
import Mathlib.Data.String.Basic
import Mathlib.Logic.Relation

/-!
# Paths in graphs

What the two searches of a graph find, in terms of its edges alone. `reachable` lists the nodes
that a path leads to from the start (`mem_reachable`). Peeling takes exactly the nodes that have a
foundation, which is to say that going back along the edges from them comes to an end
(`mem_stuck_iff`); since there are finitely many nodes, nothing is stuck exactly if no path leads
from a node back to itself (`stuck_eq_nil_iff_acyclic`).

So neither search depends on the order in which the graph lists its nodes and edges
(`stuck_congr`).
-/

set_option autoImplicit false

namespace Flowgraph

namespace Graph

open Relation

variable {g g' : Graph} {u v w : String} {taken : List String} {p : Peel}

/-- Whether an edge leads from a node to another. -/
def Edge (g : Graph) (u v : String) : Prop := v ∈ g.successors u

/-- No path leads from a node back to itself. -/
def Acyclic (g : Graph) : Prop := ∀ v, ¬ TransGen g.Edge v v

theorem Edge.mem_nodes (h : g.Edge u v) : u ∈ g.nodes := by
  by_contra hnot
  have hnone : Assoc.get? u g = none := Assoc.get?_eq_none hnot
  simp [Edge, successors, hnone] at h

/-! ### Where peeling ends -/

/-- In a row with all predecessors, going back along the edges comes to an end. -/
theorem Closed.acc (h : g.Closed taken) (hnodup : taken.Nodup) (hv : v ∈ taken) :
    Acc g.Edge v := by
  -- by induction on the place in the row
  induction hn : taken.idxOf v using Nat.strongRecOn generalizing v with
  | _ n ih =>
    refine Acc.intro v fun u hedge => ?_
    have hu : u ∈ taken := h.mem hv hedge.mem_nodes hedge
    have hlt : taken.idxOf u < taken.idxOf v := h.idxOf_lt hnodup hv hedge.mem_nodes hedge
    exact ih _ (hn ▸ hlt) hu rfl

/-- When peeling has ended, a node from which going back comes to an end has been taken. -/
theorem Peeled.mem_taken_of_acc (h : Peeled g taken p)
    (hend : p.ready = [] ∨ g.nodes.length ≤ taken.length) (hacc : Acc g.Edge v)
    (hv : v ∈ g.nodes) : v ∈ taken := by
  induction hacc with
  | intro v _ ih =>
    rw [h.mem_taken_iff hend hv, List.eq_nil_iff_forall_not_mem]
    intro u hu
    obtain ⟨hnode, hnot, hedge⟩ := mem_waiting.1 hu
    exact hnot (ih u hedge hnode)

/-- When peeling has ended, the nodes with a counter above zero are those from which one can go back
along the edges for ever. -/
theorem Peeled.mem_left_iff (hg : g.WellFormed) (h : Peeled g taken p)
    (hend : p.ready = [] ∨ g.nodes.length ≤ taken.length) :
    (∃ n, (v, n) ∈ p.degrees ∧ 0 < n) ↔ v ∈ g.nodes ∧ ¬ Acc g.Edge v := by
  have hkeys : (p.degrees.map (·.1)).Nodup := h.keys.nodup_iff.2 hg.nodes
  constructor
  · rintro ⟨n, hn, hpos⟩
    have hnode : v ∈ g.nodes := h.keys.mem_iff.1 (List.mem_map_of_mem hn)
    refine ⟨hnode, fun hacc => ?_⟩
    have htaken : v ∈ taken := h.mem_taken_of_acc hend hacc hnode
    have hcount : Assoc.get? v p.degrees = some n := Assoc.get?_of_mem hkeys hn
    rw [h.counts v hnode, (h.mem_taken_iff hend hnode).1 htaken] at hcount
    simp only [List.length_nil, Option.some.injEq] at hcount
    omega
  · rintro ⟨hnode, hacc⟩
    refine ⟨_, Assoc.mem_of_get? (h.counts v hnode), ?_⟩
    refine List.length_pos_iff.2 fun hfree => hacc ?_
    exact h.closed.acc h.once ((h.mem_taken_iff hend hnode).2 hfree)

/-- **The nodes that are stuck** are those from which one can go back along the edges for ever. -/
theorem mem_stuck_iff (hg : g.WellFormed) : v ∈ g.stuck ↔ v ∈ g.nodes ∧ ¬ Acc g.Edge v := by
  obtain ⟨taken, hpeeled, hend⟩ := exists_peeled hg
  rw [mem_stuck, hpeeled.mem_left_iff hg hend]

/-- If no cycle leads to a node, going back along the edges from it comes to an end. -/
theorem acc_of_no_cycle (h : ∀ u, TransGen g.Edge u u → ¬ ReflTransGen g.Edge u v)
    (hv : v ∈ g.nodes) : Acc g.Edge v := by
  -- paths on the way to the node are a transitive and irreflexive relation on a finite type
  let r : {u // u ∈ g.nodes} → {u // u ∈ g.nodes} → Prop := fun a b =>
    TransGen g.Edge a.1 b.1 ∧ ReflTransGen g.Edge b.1 v
  have htrans : IsTrans _ r := ⟨fun _ _ _ hab hbc => ⟨hab.1.trans hbc.1, hbc.2⟩⟩
  have hirrefl : Std.Irrefl r := ⟨fun a ha => h a.1 ha.1 ha.2⟩
  have hfinite : Finite {u // u ∈ g.nodes} := (List.finite_toSet g.nodes).to_subtype
  have hwf : WellFounded r := Finite.wellFounded_of_trans_of_irrefl r
  suffices hway : ∀ node : {u // u ∈ g.nodes}, ReflTransGen g.Edge node.1 v → Acc g.Edge node.1 from
    hway ⟨v, hv⟩ .refl
  intro node
  induction node using hwf.induction with
  | _ node ih =>
    intro hpath
    exact Acc.intro node.1 fun u hedge =>
      ih ⟨u, hedge.mem_nodes⟩ ⟨TransGen.single hedge, hpath⟩ (.head hedge hpath)

/-- In a graph without cycles, going back along the edges comes to an end. -/
theorem Acyclic.acc (h : g.Acyclic) (hv : v ∈ g.nodes) : Acc g.Edge v :=
  acc_of_no_cycle (fun u hcycle => absurd hcycle (h u)) hv

/-- Going round in a cycle does not come to an end. -/
theorem not_cycle_of_acc (h : Acc g.Edge v) : ¬ TransGen g.Edge v v := by
  have hpaths : Acc (TransGen g.Edge) v := h.transGen
  clear h
  induction hpaths with
  | intro v _ ih => exact fun hcycle => ih v hcycle hcycle

/-- **What is stuck are the nodes that cycles lead to**, those on cycles among them. -/
theorem mem_stuck_iff_cycle (hg : g.WellFormed) : v ∈ g.stuck ↔
    v ∈ g.nodes ∧ ∃ u, TransGen g.Edge u u ∧ ReflTransGen g.Edge u v := by
  rw [mem_stuck_iff hg]
  refine and_congr_right fun hv => ⟨fun hacc => ?_, ?_⟩
  · by_contra hnone
    exact hacc (acc_of_no_cycle (fun u hcycle hpath => hnone ⟨u, hcycle, hpath⟩) hv)
  · rintro ⟨u, hcycle, hpath⟩ hacc
    -- if going back from a node comes to an end, it does so from all nodes on the way
    refine not_cycle_of_acc ?_ hcycle
    clear hcycle
    induction hpath using ReflTransGen.head_induction_on with
    | refl => exact hacc
    | head hedge _ ih => exact ih.inv hedge

/-- **Nothing is stuck exactly in a graph without cycles.** -/
theorem stuck_eq_nil_iff_acyclic (hg : g.WellFormed) : g.stuck = [] ↔ g.Acyclic := by
  constructor
  · intro h v hcycle
    obtain ⟨_, hedge, -⟩ := TransGen.head'_iff.1 hcycle
    have hnode : v ∈ g.nodes := hedge.mem_nodes
    have hacc : Acc g.Edge v := by
      by_contra hnot
      have hv := (mem_stuck_iff hg).2 ⟨hnode, hnot⟩
      rw [h] at hv
      exact List.not_mem_nil hv
    exact not_cycle_of_acc hacc hcycle
  · intro h
    rw [List.eq_nil_iff_forall_not_mem]
    intro v hv
    obtain ⟨hnode, hnot⟩ := (mem_stuck_iff hg).1 hv
    exact hnot (h.acc hnode)

/-- What is stuck is listed in ascending order. -/
theorem pairwise_stuck : g.stuck.Pairwise (· ≤ ·) := List.pairwise_mergeSort' (· ≤ ·) _

/-- Nothing is listed as stuck twice. -/
theorem nodup_stuck (hg : g.WellFormed) : g.stuck.Nodup := by
  obtain ⟨taken, hpeeled, -⟩ := exists_peeled hg
  have hkeys : ((Peel.run g g.length (Peel.start g)).degrees.map (·.1)).Nodup :=
    hpeeled.keys.nodup_iff.2 hg.nodes
  unfold stuck
  rw [(List.mergeSort_perm _ _).nodup_iff]
  exact hkeys.sublist (List.filter_sublist.map _)

/-- **What is stuck follows from the nodes and the edges**, in whatever order they are listed. -/
theorem stuck_congr (hg : g.WellFormed) (hg' : g'.WellFormed)
    (hnodes : ∀ v, v ∈ g.nodes ↔ v ∈ g'.nodes) (hedges : ∀ u v, g.Edge u v ↔ g'.Edge u v) :
    g.stuck = g'.stuck := by
  have hedge : g.Edge = g'.Edge := by
    funext u v
    exact propext (hedges u v)
  have hperm : g.stuck.Perm g'.stuck := by
    refine (List.perm_ext_iff_of_nodup (nodup_stuck hg) (nodup_stuck hg')).2 fun v => ?_
    rw [mem_stuck_iff hg, mem_stuck_iff hg', hnodes, hedge]
  exact hperm.eq_of_pairwise' pairwise_stuck pairwise_stuck

/-! ### What a search reaches -/

section

variable {seen line : List String}

/-- The nodes seen before are found, and so are those in line. -/
theorem mem_explore_of_mem (h : v ∈ seen ∨ v ∈ line) : v ∈ g.explore seen line := by
  fun_induction explore with
  | case1 => exact h.resolve_right List.not_mem_nil
  | case2 seen node line hseen ih =>
    refine ih ?_
    rcases h with h | h
    · exact Or.inl h
    · rcases List.mem_cons.1 h with rfl | h
      · exact Or.inl hseen
      · exact Or.inr h
  | case3 seen node line _ ih =>
    refine ih ?_
    rcases h with h | h
    · exact Or.inl (List.mem_cons_of_mem _ h)
    · rcases List.mem_cons.1 h with rfl | h
      · exact Or.inl (List.mem_cons_self ..)
      · exact Or.inr (List.mem_append_left _ h)

/-- Edges from what has been found lead to what is found, if those from the nodes seen before lead
to nodes seen or in line. -/
theorem Edge.mem_explore (hedge : g.Edge u v) (hu : u ∈ g.explore seen line)
    (hseen : ∀ u ∈ seen, ∀ v, g.Edge u v → v ∈ seen ∨ v ∈ line) : v ∈ g.explore seen line := by
  fun_induction explore with
  | case1 seen => exact (hseen u hu v hedge).resolve_right List.not_mem_nil
  | case2 seen node line hnode ih =>
    refine ih hu fun a ha b hab => ?_
    rcases hseen a ha b hab with hb | hb
    · exact Or.inl hb
    · rcases List.mem_cons.1 hb with rfl | hb
      · exact Or.inl hnode
      · exact Or.inr hb
  | case3 seen node line _ ih =>
    refine ih hu fun a ha b hab => ?_
    rcases List.mem_cons.1 ha with rfl | ha
    · exact Or.inr (List.mem_append_right _ hab)
    · rcases hseen a ha b hab with hb | hb
      · exact Or.inl (List.mem_cons_of_mem _ hb)
      · rcases List.mem_cons.1 hb with rfl | hb
        · exact Or.inl (List.mem_cons_self ..)
        · exact Or.inr (List.mem_append_left _ hb)

/-- What is found was seen before, or a path leads there from a node in line. -/
theorem path_of_mem_explore (h : v ∈ g.explore seen line) :
    v ∈ seen ∨ ∃ u ∈ line, ReflTransGen g.Edge u v := by
  fun_induction explore with
  | case1 => exact Or.inl h
  | case2 seen node line _ ih =>
    refine (ih h).imp id fun ⟨u, hu, hpath⟩ => ?_
    exact ⟨u, List.mem_cons_of_mem _ hu, hpath⟩
  | case3 seen node line _ ih =>
    rcases ih h with hv | ⟨u, hu, hpath⟩
    · rcases List.mem_cons.1 hv with rfl | hv
      · exact Or.inr ⟨v, List.mem_cons_self .., .refl⟩
      · exact Or.inl hv
    · rcases List.mem_append.1 hu with hu | hu
      · exact Or.inr ⟨u, List.mem_cons_of_mem _ hu, hpath⟩
      · exact Or.inr ⟨node, List.mem_cons_self .., hpath.head hu⟩

end

/-- **The nodes that are reached** are those that a path leads to from the start. -/
theorem mem_reachable : v ∈ g.reachable u ↔ ReflTransGen g.Edge u v := by
  constructor
  · intro h
    obtain hv | ⟨w, hw, hpath⟩ := path_of_mem_explore h
    · cases hv
    · rwa [List.mem_singleton.1 hw] at hpath
  · intro hpath
    induction hpath with
    | refl => exact mem_explore_of_mem (Or.inr (List.mem_singleton_self u))
    | tail _ hedge ih => exact hedge.mem_explore ih fun _ h => absurd h List.not_mem_nil

end Graph

end Flowgraph
