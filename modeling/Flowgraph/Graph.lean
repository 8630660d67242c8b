import Flowgraph.Assoc

/-!
# Graphs of names

A graph lists every node once, with its successors. `stuck` takes away nodes without
predecessors as long as there are any; what is left are the nodes on cycles and those that
cycles lead to. `reachable` are the nodes to which a path leads from a start.
-/

set_option autoImplicit false

namespace Flowgraph

/-- Nodes with their successors. -/
abbrev Graph := List (String × List String)

namespace Graph

/-- The nodes of a graph. -/
def nodes (g : Graph) : List String := g.map (·.1)

/-- The nodes that edges lead to from a node. -/
def successors (g : Graph) (node : String) : List String := (Assoc.get? node g).getD []

/-- Adds edges from a node, each at most once. -/
def connect (g : Graph) (node : String) (targets : List String) : Graph :=
  Assoc.set node (targets.foldl (fun ts t => if t ∈ ts then ts else ts ++ [t])
    (g.successors node)) g

/-! ### Cycles -/

/-- The state of taking nodes away: how many predecessors each node has left, and the nodes
without any that are to be taken away next. -/
structure Peel where
  degrees : List (String × Nat)
  ready : List String

/-- How many nodes lead to a node. -/
def degree (g : Graph) (node : String) : Nat :=
  (g.filter fun (_, targets) => targets.contains node).length

/-- The state before any node is taken away. -/
def Peel.start (g : Graph) : Peel where
  degrees := g.nodes.map fun node => (node, g.degree node)
  ready := g.nodes.filter (g.degree · = 0)

/-- Takes one edge to a node away. -/
def Peel.cut (p : Peel) (target : String) : Peel :=
  match Assoc.get? target p.degrees with
  | none => p
  | some n =>
    { degrees := Assoc.set target (n - 1) p.degrees
      ready := if n - 1 = 0 then p.ready ++ [target] else p.ready }

/-- Takes up to `count` nodes away, each with its edges. -/
def Peel.run (g : Graph) : Nat → Peel → Peel
  | 0, p => p
  | count + 1, p =>
    match p.ready with
    | [] => p
    | node :: rest =>
      Peel.run g count ((g.successors node).foldl Peel.cut { p with ready := rest })

/-- The nodes that cannot be taken away, in ascending order. -/
def stuck (g : Graph) : List String :=
  let final := Peel.run g g.length (Peel.start g)
  ((final.degrees.filter (0 < ·.2)).map (·.1)).mergeSort

/-! ### Reachability -/

/-- How many nodes of a graph are not in a list. -/
def missing (g : Graph) (seen : List String) : Nat :=
  (g.nodes.filter (· ∉ seen)).length

theorem missing_cons (g : Graph) (seen : List String) (node : String) :
    g.missing (node :: seen) = ((g.nodes.filter (· ∉ seen)).filter (· ≠ node)).length := by
  unfold missing
  rw [List.filter_filter]
  congr 1
  apply List.filter_congr
  intro x _
  by_cases h : x = node <;> simp [h]

theorem missing_cons_le (g : Graph) (seen : List String) (node : String) :
    g.missing (node :: seen) ≤ g.missing seen := by
  rw [missing_cons]
  exact List.length_filter_le _ _

theorem missing_cons_lt {g : Graph} {seen : List String} {node : String}
    (h : node ∈ g.nodes) (hs : node ∉ seen) : g.missing (node :: seen) < g.missing seen := by
  rw [missing_cons]
  apply List.length_filter_lt_length_iff_exists.2
  exact ⟨node, List.mem_filter.2 ⟨h, by simpa using hs⟩, by simp⟩

/-- The nodes seen so far, and those to which paths lead from the ones in line. -/
def explore (g : Graph) (seen : List String) : List String → List String
  | [] => seen
  | node :: line =>
    if node ∈ seen then g.explore seen line
    else g.explore (node :: seen) (line ++ g.successors node)
termination_by line => (g.missing seen, line.length)
decreasing_by
  · exact Prod.Lex.right _ (by simp)
  · rename_i h
    by_cases hn : node ∈ g.nodes
    · exact Prod.Lex.left _ _ (missing_cons_lt hn h)
    · rcases Nat.lt_or_eq_of_le (g.missing_cons_le seen node) with hlt | heq
      · exact Prod.Lex.left _ _ hlt
      · rw [heq]
        apply Prod.Lex.right
        have : g.successors node = [] := by
          unfold successors
          rw [Assoc.get?_eq_none (by simpa [nodes] using hn)]; rfl
        simp [this]

/-- The nodes to which a path leads from a start, the start included. -/
def reachable (g : Graph) (start : String) : List String := g.explore [] [start]

end Graph

end Flowgraph
