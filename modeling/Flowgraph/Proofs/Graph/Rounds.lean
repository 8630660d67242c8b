import Flowgraph.Proofs.Graph.Paths

/-!
# Searches of a graph, round by round

`Graph.reachable` and `Graph.stuck` say what the two searches of a graph find. Here the searches
are loops over a line of nodes, which may run out of fuel, and what they keep is in tables that are
gone through in no particular order (`Tour`).

`search` ends within as many rounds as there are edges, and one more (`search_eq`). `findCycle`
ends within as many rounds as there are nodes, and one more; no counter ever goes below zero, which
the loop refuses; and whatever the order of the tables, its answer is `Graph.stuck`
(`findCycle_eq`). The proof uses the invariant of peeling: a node that is taken away is one that
each of its successors still waits for.
-/

set_option autoImplicit false

namespace Flowgraph

/-- A way to go through the entries of a table: each entry once, in any order. -/
structure Tour (α : Type) where
  visit : List α → List α
  perm : ∀ entries, (visit entries).Perm entries

namespace Graph

variable {g : Graph} {u v : String} {taken : List String} {p : Peel}

/-! ### Looking for nodes -/

/-- Takes the first node out of the line, and unless it has been seen, lines up its successors. -/
def search (g : Graph) : Nat → List String → List String → Option (List String)
  | 0, _, _ => none
  | _ + 1, seen, [] => some seen
  | fuel + 1, seen, node :: line =>
    if node ∈ seen then g.search fuel seen line
    else g.search fuel (node :: seen) (line ++ g.successors node)

/-- How many edges start at nodes that have not been seen. -/
def edgesAhead (g : Graph) (seen : List String) : Nat :=
  (g.flatMap fun row => if row.1 ∈ seen then [] else row.2).length

/-- Seeing a node leaves the edges from it behind. -/
theorem edgesAhead_cons {seen : List String} (hg : g.nodes.Nodup) (hu : u ∉ seen) :
    g.edgesAhead seen = (g.successors u).length + g.edgesAhead (u :: seen) := by
  unfold edgesAhead successors
  induction g with
  | nil => rfl
  | cons row g ih =>
    obtain ⟨hrow, hrest⟩ := List.nodup_cons.1 hg
    rw [List.flatMap_cons, List.length_append, List.flatMap_cons, List.length_append]
    by_cases hnode : row.1 = u
    · -- the other rows are not about the node
      have hsame : (g.flatMap fun row => if row.1 ∈ u :: seen then [] else row.2) =
          g.flatMap fun row => if row.1 ∈ seen then [] else row.2 := by
        refine List.flatMap_congr fun other hother => ?_
        have hne : other.1 ≠ u := fun heq =>
          hrow (List.mem_map.2 ⟨other, hother, heq.trans hnode.symm⟩)
        simp [hne]
      simp only [hsame, Assoc.get?, hnode, hu, if_true, if_false, Option.getD_some,
        List.mem_cons_self, List.length_nil, Nat.zero_add]
    · rw [ih hrest]
      simp only [Assoc.get?, hnode, if_false, List.mem_cons, false_or]
      omega

/-- The rounds that are left are at most the nodes in line and the edges ahead. -/
theorem search_eq_explore (hg : g.nodes.Nodup) {seen line : List String} {fuel : Nat}
    (hfuel : line.length + g.edgesAhead seen < fuel) :
    g.search fuel seen line = some (g.explore seen line) := by
  induction fuel generalizing seen line with
  | zero => omega
  | succ fuel ih =>
    cases line with
    | nil => rw [search, explore]
    | cons node line =>
      rw [List.length_cons] at hfuel
      rw [search, explore]
      split
      · exact ih (by omega)
      · rename_i hnew
        refine ih ?_
        rw [edgesAhead_cons hg hnew] at hfuel
        rw [List.length_append]
        omega

/-- How many edges there are. -/
def edges (g : Graph) : Nat := (g.flatMap (·.2)).length

/-- **A search ends**, in at most one round for the start and one for each edge. -/
theorem search_eq (hg : g.WellFormed) {fuel : Nat} (hfuel : 1 + g.edges < fuel) :
    g.search fuel [] [u] = some (g.reachable u) := by
  refine search_eq_explore hg.nodes ?_
  simpa [edgesAhead, edges] using hfuel

/-! ### Counting the edges to each node -/

/-- Counts an edge to a node, if it is one with a counter. -/
def countEdge (counters : List (String × Nat)) (target : String) : List (String × Nat) :=
  match Assoc.get? target counters with
  | none => counters
  | some n => Assoc.set target (n + 1) counters

variable {counters : List (String × Nat)} {targets : List String}

theorem keys_countEdges :
    (targets.foldl countEdge counters).map (·.1) = counters.map (·.1) := by
  induction targets generalizing counters with
  | nil => rfl
  | cons t targets ih =>
    rw [List.foldl_cons, ih]
    unfold countEdge
    cases ht : Assoc.get? t counters with
    | none => rfl
    | some n => exact Assoc.keys_set_of_get? ht

theorem get?_countEdges : Assoc.get? v (targets.foldl countEdge counters) =
    (Assoc.get? v counters).map (· + targets.count v) := by
  induction targets generalizing counters with
  | nil => simp
  | cons t targets ih =>
    have hfirst : Assoc.get? v (countEdge counters t) =
        (Assoc.get? v counters).map (· + if t = v then 1 else 0) := by
      unfold countEdge
      cases ht : Assoc.get? t counters with
      | none =>
        by_cases hv : t = v
        · subst hv
          simp [ht]
        · simp [hv]
      | some n =>
        rw [Assoc.get?_set]
        by_cases hv : t = v
        · subst hv
          simp [ht]
        · simp [hv]
    rw [List.foldl_cons, ih, hfirst, Option.map_map]
    congr 1
    funext n
    simp only [Function.comp_apply, List.count_cons, beq_iff_eq]
    omega

/-- A node has as many predecessors as the rows of the graph name it. -/
theorem count_targets (hg : g.WellFormed) : (g.flatMap (·.2)).count v = g.degree v := by
  have hrows : ∀ row ∈ g, row.2.Nodup := fun row hrow =>
    mem_successors_of_mem hg hrow ▸ hg.successors row.1
  clear hg
  unfold degree
  induction g with
  | nil => rfl
  | cons row g ih =>
    obtain ⟨hrow, hrest⟩ := List.forall_mem_cons.1 hrows
    rw [List.flatMap_cons, List.count_append, ih hrest, hrow.count, List.filter_cons]
    split <;> simp_all [Nat.add_comm]

/-! ### Taking nodes away -/

namespace Peel

/-- Takes an edge to a node away. Nothing comes of it if the counter is at zero already. -/
def cut? (p : Peel) (target : String) : Option Peel :=
  match Assoc.get? target p.degrees with
  | none => some p
  | some 0 => none
  | some (n + 1) => some
    { degrees := Assoc.set target n p.degrees
      ready := if n = 0 then p.ready ++ [target] else p.ready }

/-- Takes nodes away until none is in line, and counts them. -/
def drain (g : Graph) : Nat → Peel → Option (Nat × Peel)
  | 0, _ => none
  | fuel + 1, p =>
    match p.ready with
    | [] => some (0, p)
    | node :: rest => do
      let p ← (g.successors node).foldlM cut? { p with ready := rest }
      let (visited, p) ← drain g fuel p
      return (visited + 1, p)

theorem cut?_eq {t : String} (h : Assoc.get? t p.degrees ≠ some 0) : p.cut? t = some (p.cut t) := by
  unfold cut? cut
  cases ht : Assoc.get? t p.degrees with
  | none => rfl
  | some n =>
    cases n with
    | zero => exact absurd ht h
    | succ n => rfl

theorem cuts?_eq {targets : List String} (hnodup : targets.Nodup)
    (h : ∀ t ∈ targets, Assoc.get? t p.degrees ≠ some 0) :
    targets.foldlM cut? p = some (targets.foldl cut p) := by
  induction targets generalizing p with
  | nil => rfl
  | cons t targets ih =>
    obtain ⟨ht, htargets⟩ := List.nodup_cons.1 hnodup
    obtain ⟨hfirst, hrest⟩ := List.forall_mem_cons.1 h
    rw [List.foldlM_cons, cut?_eq hfirst, List.foldl_cons]
    refine ih htargets fun s hs => ?_
    have hne : s ≠ t := fun heq => ht (heq ▸ hs)
    rw [get?_cut, if_neg hne]
    exact hrest s hs

end Peel

/-- **No counter goes below zero**: the successors of a node in line still wait for it. -/
theorem Peeled.take? (hg : g.WellFormed) (h : Peeled g taken p) {rest : List String}
    (hready : p.ready = u :: rest) :
    (g.successors u).foldlM Peel.cut? { p with ready := rest } =
      some ((g.successors u).foldl Peel.cut { p with ready := rest }) := by
  obtain ⟨hnode, hnew, -⟩ := (h.ready u).1 (hready ▸ List.mem_cons_self ..)
  refine Peel.cuts?_eq (hg.successors u) fun v hv hzero => ?_
  have hwait : u ∈ g.waiting taken v := mem_waiting.2 ⟨hnode, hnew, hv⟩
  by_cases hvn : v ∈ g.nodes
  · rw [h.counts v hvn, Option.some.injEq] at hzero
    rw [List.length_eq_zero_iff.1 hzero] at hwait
    exact List.not_mem_nil hwait
  · rw [Assoc.get?_eq_none fun hmem => hvn (h.keys.mem_iff.1 hmem)] at hzero
    cases hzero

/-- **The loop ends** with no node in line, before it has taken more nodes than there are. -/
theorem Peeled.drain (hg : g.WellFormed) (h : Peeled g taken p) {fuel : Nat}
    (hfuel : g.nodes.length < taken.length + fuel) :
    ∃ visited last taken', Peel.drain g fuel p = some (visited, last) ∧ Peeled g taken' last ∧
      last.ready = [] ∧ taken'.length = taken.length + visited := by
  induction fuel generalizing taken p with
  | zero =>
    have hle : taken.length ≤ g.nodes.length := (h.once.subperm h.known).length_le
    omega
  | succ fuel ih =>
    unfold Peel.drain
    cases hready : p.ready with
    | nil => exact ⟨0, p, taken, rfl, h, hready, rfl⟩
    | cons u rest =>
      have hnext := h.take hg hready
      obtain ⟨visited, last, taken', hdrain, hlast, hidle, hlen⟩ :=
        ih hnext (by rw [List.length_append, List.length_singleton]; omega)
      rw [List.length_append, List.length_singleton] at hlen
      refine ⟨visited + 1, last, taken', ?_, hlast, hidle, by omega⟩
      simp [h.take? hg hready, hdrain]

/-! ### Looking for cycles -/

/-- Counts the edges to each node, takes nodes away as long as there are any without predecessors,
and lists those that are left. Each of the tables is gone through in some order. -/
def findCycle (g : Graph) (ids : Tour String) (rows : Tour (String × List String))
    (before after : Tour (String × Nat)) (fuel : Nat) : Option (Option (List String)) := do
  let counters := ((rows.visit g).flatMap (·.2)).foldl countEdge
    ((ids.visit g.nodes).map fun node => (node, 0))
  let line := ((before.visit counters).filter (·.2 = 0)).map (·.1)
  let (visited, last) ← Peel.drain g fuel ⟨counters, line⟩
  return if visited = last.degrees.length then none
    else some (((after.visit last.degrees).filter (0 < ·.2)).map (·.1)).mergeSort

/-- The state from which nodes are taken away, in whatever order the counters are. -/
theorem Peeled.counted (hg : g.WellFormed) (ids : Tour String) (rows : Tour (String × List String))
    (before : Tour (String × Nat)) {counters : List (String × Nat)}
    (hcounters : counters = ((rows.visit g).flatMap (·.2)).foldl countEdge
      ((ids.visit g.nodes).map fun node => (node, 0))) :
    Peeled g [] ⟨counters, ((before.visit counters).filter (·.2 = 0)).map (·.1)⟩ := by
  have hkeys : (counters.map (·.1)).Perm g.nodes := by
    rw [hcounters, keys_countEdges]
    simpa [Function.comp_def] using ids.perm g.nodes
  have hnodup : (counters.map (·.1)).Nodup := hkeys.nodup_iff.2 hg.nodes
  have hcounts : ∀ v ∈ g.nodes, Assoc.get? v counters = some (g.waiting [] v).length := by
    intro v hv
    have hzero : Assoc.get? v ((ids.visit g.nodes).map fun node => (node, 0)) = some 0 :=
      Assoc.get?_map_of_mem (f := fun _ => 0) ((ids.perm g.nodes).mem_iff.2 hv)
    rw [hcounters, get?_countEdges, hzero, ((rows.perm g).flatMap_right _).count_eq,
      count_targets hg, degree_eq hg]
    simp
  have hmem : ∀ v, v ∈ ((before.visit counters).filter (·.2 = 0)).map (·.1) ↔
      (v, 0) ∈ counters := by
    intro v
    simp [(before.perm counters).mem_iff]
  exact {
    once := List.nodup_nil
    known := List.nil_subset _
    closed := .nil
    keys := hkeys
    counts := hcounts
    line := by
      have hperm := ((before.perm counters).filter (·.2 = 0)).map (·.1)
      exact hperm.nodup_iff.2 (hnodup.sublist (List.filter_sublist.map _))
    ready := fun v => by
      rw [hmem]
      constructor
      · intro hv
        have hnode : v ∈ g.nodes := hkeys.mem_iff.1 (List.mem_map_of_mem hv)
        have hzero := (Assoc.get?_of_mem hnodup hv).symm.trans (hcounts v hnode)
        exact ⟨hnode, List.not_mem_nil, List.length_eq_zero_iff.1 (Option.some.inj hzero).symm⟩
      · rintro ⟨hnode, -, hfree⟩
        refine Assoc.mem_of_get? ?_
        rw [hcounts v hnode, hfree]
        rfl }

/-- In the end, the counters above zero are those of the nodes that are stuck. -/
theorem Peeled.left_perm_stuck (hg : g.WellFormed) (h : Peeled g taken p) (hidle : p.ready = []) :
    ((p.degrees.filter (0 < ·.2)).map (·.1)).Perm g.stuck := by
  have hkeys : (p.degrees.map (·.1)).Nodup := h.keys.nodup_iff.2 hg.nodes
  have hnodup : ((p.degrees.filter (0 < ·.2)).map (·.1)).Nodup :=
    hkeys.sublist (List.filter_sublist.map _)
  refine (List.perm_ext_iff_of_nodup hnodup (nodup_stuck hg)).2 fun v => ?_
  rw [mem_stuck_iff hg, ← h.mem_left_iff hg (Or.inl hidle)]
  simp

/-- In the end, as many nodes have been taken as there are counters if nothing is stuck, and only
then. -/
theorem Peeled.length_eq_iff (hg : g.WellFormed) (h : Peeled g taken p) (hidle : p.ready = []) :
    taken.length = p.degrees.length ↔ g.stuck = [] := by
  have hcounters : p.degrees.length = g.nodes.length := by simpa using h.keys.length_eq
  rw [hcounters, List.eq_nil_iff_forall_not_mem]
  constructor
  · intro hlen v hv
    obtain ⟨hnode, hacc⟩ := (mem_stuck_iff hg).1 hv
    have hall : taken.Perm g.nodes := (h.once.subperm h.known).perm_of_length_le hlen.ge
    exact hacc (h.closed.acc h.once (hall.mem_iff.2 hnode))
  · intro hnone
    have hall : g.nodes ⊆ taken := fun v hv => by
      refine h.mem_taken_of_acc (Or.inl hidle) ?_ hv
      by_contra hacc
      exact hnone v ((mem_stuck_iff hg).2 ⟨hv, hacc⟩)
    exact Nat.le_antisymm (h.once.subperm h.known).length_le (hg.nodes.subperm hall).length_le

/-- **The loop finds what is stuck**, whatever the order of the tables. -/
theorem findCycle_eq (hg : g.WellFormed) (ids : Tour String) (rows : Tour (String × List String))
    (before after : Tour (String × Nat)) {fuel : Nat} (hfuel : g.nodes.length < fuel) :
    g.findCycle ids rows before after fuel =
      some (if g.stuck = [] then none else some g.stuck) := by
  obtain ⟨visited, last, taken, hdrain, hlast, hidle, hlen⟩ :=
    (Peeled.counted hg ids rows before rfl).drain hg (by simpa using hfuel)
  have hleft : (((after.visit last.degrees).filter (0 < ·.2)).map (·.1)).mergeSort = g.stuck := by
    have hvisit := ((after.perm last.degrees).filter (0 < ·.2)).map (·.1)
    exact ((List.mergeSort_perm _ _).trans
      (hvisit.trans (hlast.left_perm_stuck hg hidle))).eq_of_pairwise'
        (List.pairwise_mergeSort' (· ≤ ·) _) pairwise_stuck
  have hall : visited = last.degrees.length ↔ g.stuck = [] := by
    rw [← hlast.length_eq_iff hg hidle, hlen]
    simp
  unfold findCycle
  simp only [hdrain, Option.bind_eq_bind, Option.bind_some, hleft, hall]
  rfl

end Graph

end Flowgraph
