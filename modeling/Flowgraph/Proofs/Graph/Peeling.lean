import Flowgraph.Graph
import Flowgraph.Proofs.Assoc
import Mathlib.Data.List.Nodup
import Mathlib.Data.List.Perm.Subperm

/-!
# Peeling graphs

What `Peel.run` does to a graph. It takes nodes away one after another, and the nodes taken so
far are always **closed**: all predecessors of a taken node were taken before it. The packaged
invariant is `Peeled`; the counters of a `Peel` are the numbers of predecessors that are still
there, and the nodes in line are exactly those that have none.

If nothing is stuck in the end, all nodes have been taken, and the order in which they were
taken is one in which every edge leads forward (`exists_row`).
-/

set_option autoImplicit false

namespace Flowgraph

namespace Graph

/-! ### Closed rows of nodes -/

variable {g : Graph} {u v : String} {taken : List String} {p : Peel}

/-- Every node is listed once, with each successor once. -/
structure WellFormed (g : Graph) : Prop where
  nodes : g.nodes.Nodup
  successors : ∀ v, (g.successors v).Nodup

/-- The nodes that lead to a node and are not taken. -/
def waiting (g : Graph) (taken : List String) (v : String) : List String :=
  g.nodes.filter fun u => u ∉ taken ∧ v ∈ g.successors u

/-- In a row of nodes, every predecessor of a node stands before it. -/
def Closed (g : Graph) (row : List String) : Prop :=
  ∀ before v after, row = before ++ v :: after → ∀ u ∈ g.nodes, v ∈ g.successors u → u ∈ before

theorem mem_waiting : u ∈ g.waiting taken v ↔ u ∈ g.nodes ∧ u ∉ taken ∧ v ∈ g.successors u := by
  simp [waiting]

theorem WellFormed.waiting (h : g.WellFormed) : (g.waiting taken v).Nodup :=
  h.nodes.filter _

theorem Closed.nil : g.Closed [] := by
  intro before v after h
  simp at h

theorem Closed.snoc (h : g.Closed taken) (hu : g.waiting taken u = []) :
    g.Closed (taken ++ [u]) := by
  intro before v after heq w hw hedge
  rcases List.eq_nil_or_concat after with rfl | ⟨after, last, rfl⟩
  · obtain ⟨rfl, hv⟩ := List.append_inj' heq rfl
    obtain rfl := List.singleton_inj.1 hv
    by_contra hnot
    have : w ∈ g.waiting taken u := mem_waiting.2 ⟨hw, hnot, hedge⟩
    rw [hu] at this
    exact List.not_mem_nil this
  · rw [List.concat_eq_append, ← List.cons_append, ← List.append_assoc] at heq
    obtain ⟨rfl, -⟩ := List.append_inj' heq rfl
    exact h before v after rfl w hw hedge

theorem Closed.mem (h : g.Closed taken) (hv : v ∈ taken) (hu : u ∈ g.nodes)
    (hedge : v ∈ g.successors u) : u ∈ taken := by
  obtain ⟨before, after, rfl⟩ := List.append_of_mem hv
  exact List.mem_append_left _ (h before v after rfl u hu hedge)

theorem Closed.idxOf_lt {row : List String} (h : g.Closed row) (hrow : row.Nodup) (hv : v ∈ row)
    (hu : u ∈ g.nodes) (hedge : v ∈ g.successors u) : row.idxOf u < row.idxOf v := by
  obtain ⟨before, after, rfl⟩ := List.append_of_mem hv
  have hub : u ∈ before := h before v after rfl u hu hedge
  have hvb : v ∉ before := fun hmem =>
    (List.disjoint_of_nodup_append hrow) hmem (List.mem_cons_self ..)
  rw [List.idxOf_append_of_mem hub, List.idxOf_append_of_notMem hvb, List.idxOf_cons_self]
  exact Nat.lt_of_lt_of_le (List.idxOf_lt_length_of_mem hub) (Nat.le_add_right _ _)

/-- Taking a node away leaves one predecessor less to each of its successors. -/
theorem waiting_snoc : g.waiting (taken ++ [u]) v = (g.waiting taken v).filter (· ≠ u) := by
  unfold waiting
  rw [List.filter_filter]
  apply List.filter_congr
  intro w _
  by_cases hw : w = u <;> simp [hw]

theorem length_waiting_snoc (hg : g.WellFormed) (hu : u ∈ g.nodes) (htaken : u ∉ taken) :
    (g.waiting (taken ++ [u]) v).length =
      if v ∈ g.successors u then (g.waiting taken v).length - 1
      else (g.waiting taken v).length := by
  rw [waiting_snoc]
  by_cases hedge : v ∈ g.successors u
  · have hmem : u ∈ g.waiting taken v := mem_waiting.2 ⟨hu, htaken, hedge⟩
    have herase : (g.waiting taken v).filter (· ≠ u) = (g.waiting taken v).erase u := by
      rw [hg.waiting.erase_eq_filter]
      apply List.filter_congr
      intro w _
      by_cases hw : w = u <;> simp [hw]
    rw [if_pos hedge, herase, List.length_erase_of_mem hmem]
  · rw [if_neg hedge, List.filter_eq_self.2]
    intro w hw
    have hne : w ≠ u := by
      rintro rfl
      exact hedge (mem_waiting.1 hw).2.2
    simpa using hne

/-- A node that leads from the taken one waits for nothing more if it waited for that one only. -/
theorem waiting_snoc_eq_nil (hg : g.WellFormed) (hu : u ∈ g.nodes) (htaken : u ∉ taken) :
    g.waiting (taken ++ [u]) v = [] ↔
      if v ∈ g.successors u then (g.waiting taken v).length ≤ 1 else g.waiting taken v = [] := by
  rw [← List.length_eq_zero_iff, length_waiting_snoc hg hu htaken]
  split
  · omega
  · exact List.length_eq_zero_iff

/-! ### What cutting edges does -/

namespace Peel

variable {t : String}

theorem get?_cut : Assoc.get? v (p.cut t).degrees =
    if v = t then (Assoc.get? v p.degrees).map (· - 1) else Assoc.get? v p.degrees := by
  unfold cut
  cases ht : Assoc.get? t p.degrees with
  | none =>
    by_cases hv : v = t
    · subst hv
      simp [ht]
    · simp [hv]
  | some n =>
    dsimp only
    rw [Assoc.get?_set]
    by_cases hv : v = t
    · subst hv
      simp [ht]
    · simp [hv, Ne.symm hv]

theorem ready_cut : (p.cut t).ready =
    p.ready ++ [t].filter fun t => (Assoc.get? t p.degrees).any (· ≤ 1) := by
  unfold cut
  cases ht : Assoc.get? t p.degrees with
  | none => simp [ht]
  | some n =>
    dsimp only
    by_cases hn : n ≤ 1
    · have : n - 1 = 0 := by omega
      simp [ht, hn, this]
    · have : n - 1 ≠ 0 := by omega
      simp [ht, hn, this]

theorem keys_cut : (p.cut t).degrees.map (·.1) = p.degrees.map (·.1) := by
  unfold cut
  cases ht : Assoc.get? t p.degrees with
  | none => rfl
  | some n => exact Assoc.keys_set_of_get? ht

theorem keys_cuts {targets : List String} :
    (targets.foldl cut p).degrees.map (·.1) = p.degrees.map (·.1) := by
  induction targets generalizing p with
  | nil => rfl
  | cons t targets ih => rw [List.foldl_cons, ih, keys_cut]

theorem get?_cuts {targets : List String} (h : targets.Nodup) :
    Assoc.get? v (targets.foldl cut p).degrees =
      if v ∈ targets then (Assoc.get? v p.degrees).map (· - 1) else Assoc.get? v p.degrees := by
  induction targets generalizing p with
  | nil => simp
  | cons t targets ih =>
    obtain ⟨ht, htargets⟩ := List.nodup_cons.1 h
    rw [List.foldl_cons, ih htargets, get?_cut]
    by_cases hv : v = t
    · subst hv
      simp [ht]
    · simp [hv]

theorem ready_cuts {targets : List String} (h : targets.Nodup) :
    (targets.foldl cut p).ready =
      p.ready ++ targets.filter fun t => (Assoc.get? t p.degrees).any (· ≤ 1) := by
  induction targets generalizing p with
  | nil => simp
  | cons t targets ih =>
    obtain ⟨ht, htargets⟩ := List.nodup_cons.1 h
    have hrest : targets.filter (fun s => (Assoc.get? s (p.cut t).degrees).any (· ≤ 1)) =
        targets.filter fun s => (Assoc.get? s p.degrees).any (· ≤ 1) := by
      apply List.filter_congr
      intro s hs
      have hne : s ≠ t := by
        rintro rfl
        exact ht hs
      rw [get?_cut, if_neg hne]
    rw [List.foldl_cons, ih htargets, hrest, ready_cut, List.append_assoc, ← List.filter_append,
      List.singleton_append]

end Peel

/-! ### The invariant -/

/-- The state of peeling after the nodes in `taken` have been taken away, in that order. -/
structure Peeled (g : Graph) (taken : List String) (p : Peel) : Prop where
  /-- No node is taken twice. -/
  once : taken.Nodup
  /-- Only nodes are taken. -/
  known : taken ⊆ g.nodes
  /-- A node is taken after its predecessors. -/
  closed : g.Closed taken
  /-- The counters are there for the nodes, in whatever order. -/
  keys : (p.degrees.map (·.1)).Perm g.nodes
  /-- They count the predecessors that are left. -/
  counts : ∀ v ∈ g.nodes, Assoc.get? v p.degrees = some (g.waiting taken v).length
  /-- No node is in line twice. -/
  line : p.ready.Nodup
  /-- The nodes without predecessors are the ones in line. -/
  ready : ∀ v, v ∈ p.ready ↔ v ∈ g.nodes ∧ v ∉ taken ∧ g.waiting taken v = []

theorem mem_successors_of_mem (hg : g.WellFormed) {entry : String × List String} (h : entry ∈ g) :
    g.successors entry.1 = entry.2 := by
  have hget : Assoc.get? entry.1 g = some entry.2 := Assoc.get?_of_mem hg.nodes h
  simp [successors, hget]

theorem degree_eq (hg : g.WellFormed) : g.degree v = (g.waiting [] v).length := by
  unfold degree waiting nodes
  rw [List.filter_map, List.length_map]
  congr 1
  apply List.filter_congr
  intro entry hentry
  simp [mem_successors_of_mem hg hentry]

theorem Peeled.start (hg : g.WellFormed) : Peeled g [] (Peel.start g) where
  once := List.nodup_nil
  known := List.nil_subset _
  closed := .nil
  keys := by simp [Peel.start, Function.comp_def]
  counts v hv := by rw [← degree_eq hg]; exact Assoc.get?_map_of_mem hv
  line := hg.nodes.filter _
  ready v := by simp [Peel.start, degree_eq hg]

/-- The successors of a node in line are neither taken nor in line. -/
theorem Peeled.idle (h : Peeled g taken p) (hu : u ∈ p.ready) (hv : v ∈ g.successors u) :
    v ∉ taken ∧ v ∉ p.ready := by
  obtain ⟨hnode, hnew, -⟩ := (h.ready u).1 hu
  refine ⟨fun hmem => hnew (h.closed.mem hmem hnode hv), fun hmem => ?_⟩
  obtain ⟨-, -, hnone⟩ := (h.ready v).1 hmem
  have hwaits : u ∈ g.waiting taken v := mem_waiting.2 ⟨hnode, hnew, hv⟩
  rw [hnone] at hwaits
  exact List.not_mem_nil hwaits

/-- The line after one node has been taken away. -/
theorem Peeled.mem_ready_take (hg : g.WellFormed) (h : Peeled g taken p) {rest : List String}
    (hready : p.ready = u :: rest) :
    v ∈ ((g.successors u).foldl Peel.cut { p with ready := rest }).ready ↔
      v ∈ g.nodes ∧ v ∉ taken ++ [u] ∧ g.waiting (taken ++ [u]) v = [] := by
  have hhead : u ∈ p.ready := hready ▸ List.mem_cons_self ..
  have hline := h.line
  rw [hready] at hline
  have hrest : v ∈ rest ↔ v ∈ p.ready ∧ v ≠ u := by
    rw [hready, List.mem_cons]
    constructor
    · rintro hv
      exact ⟨Or.inr hv, fun heq => (List.nodup_cons.1 hline).1 (heq ▸ hv)⟩
    · rintro ⟨hv, hne⟩
      exact hv.resolve_left hne
  obtain ⟨hnode, hnew, -⟩ := (h.ready u).1 hhead
  rw [Peel.ready_cuts (hg.successors u), List.mem_append, List.mem_filter,
    waiting_snoc_eq_nil hg hnode hnew, List.mem_append, List.mem_singleton, not_or]
  dsimp only
  by_cases hedge : v ∈ g.successors u
  · -- a successor joins the line if its counter says so
    obtain ⟨huntaken, hidle⟩ := h.idle hhead hedge
    have hne : v ≠ u := fun heq => hidle (heq ▸ hhead)
    by_cases hv : v ∈ g.nodes
    · simp [hrest, hidle, hedge, huntaken, hne, hv, h.counts v hv]
    · have hcounter := Assoc.get?_eq_none fun hmem => hv (h.keys.mem_iff.1 hmem)
      simp [hrest, hidle, hv, hcounter]
  · -- the others stay in line
    simp only [hedge, if_false, false_and, or_false, hrest, h.ready v]
    tauto

/-- **One node is taken away** with its edges. -/
theorem Peeled.take (hg : g.WellFormed) (h : Peeled g taken p) {rest : List String}
    (hready : p.ready = u :: rest) :
    Peeled g (taken ++ [u]) ((g.successors u).foldl Peel.cut { p with ready := rest }) := by
  have hhead : u ∈ p.ready := hready ▸ List.mem_cons_self ..
  obtain ⟨hnode, hnew, hfree⟩ := (h.ready u).1 hhead
  refine ⟨?once, ?known, h.closed.snoc hfree, ?keys, ?counts, ?line, fun v =>
    h.mem_ready_take hg hready⟩
  case once =>
    exact List.nodup_append.2 ⟨h.once, List.nodup_singleton u, fun a ha b hb heq =>
      hnew (by rw [← List.mem_singleton.1 hb, ← heq]; exact ha)⟩
  case known =>
    exact List.append_subset.2 ⟨h.known, by simpa using hnode⟩
  case keys =>
    rw [Peel.keys_cuts]
    exact h.keys
  case counts =>
    intro v hv
    rw [Peel.get?_cuts (hg.successors u), length_waiting_snoc hg hnode hnew]
    -- the counter of a node goes down exactly where one predecessor fewer is left
    by_cases hedge : v ∈ g.successors u <;> simp [hedge, h.counts v hv]
  case line =>
    -- what joins the line are successors, which are not in it yet
    have hline := h.line
    rw [hready] at hline
    rw [Peel.ready_cuts (hg.successors u)]
    refine List.nodup_append.2 ⟨(List.nodup_cons.1 hline).2, (hg.successors u).filter _,
      fun a ha b hb heq => ?_⟩
    subst heq
    refine (h.idle hhead (List.mem_of_mem_filter hb)).2 ?_
    rw [hready]
    exact List.mem_cons_of_mem _ ha

/-- **A run of peeling** takes nodes until none is in line, or as many as it may. -/
theorem Peeled.run (hg : g.WellFormed) (h : Peeled g taken p) (count : Nat) :
    ∃ taken', Peeled g taken' (Peel.run g count p) ∧
      ((Peel.run g count p).ready = [] ∨ taken'.length = taken.length + count) := by
  induction count generalizing taken p with
  | zero => exact ⟨taken, h, Or.inr rfl⟩
  | succ count ih =>
    unfold Peel.run
    cases hready : p.ready with
    | nil => exact ⟨taken, h, Or.inl hready⟩
    | cons u rest =>
      obtain ⟨taken', hpeeled, hend⟩ := ih (h.take hg hready)
      refine ⟨taken', hpeeled, hend.imp id fun hlen => ?_⟩
      rw [hlen, List.length_append, List.length_singleton]
      omega

/-! ### What is left -/

/-- In the end, the nodes that are taken are those without a counter above zero. -/
theorem Peeled.mem_taken_iff (h : Peeled g taken p)
    (hend : p.ready = [] ∨ g.nodes.length ≤ taken.length) (hv : v ∈ g.nodes) :
    v ∈ taken ↔ g.waiting taken v = [] := by
  constructor
  · intro hmem
    rw [List.eq_nil_iff_forall_not_mem]
    intro w hw
    obtain ⟨hwn, hwt, hedge⟩ := mem_waiting.1 hw
    exact hwt (h.closed.mem hmem hwn hedge)
  · intro hfree
    rcases hend with hready | hlen
    · by_contra hnot
      have : v ∈ p.ready := (h.ready v).2 ⟨hv, hnot, hfree⟩
      rw [hready] at this
      exact List.not_mem_nil this
    · exact ((h.once.subperm h.known).perm_of_length_le hlen).mem_iff.2 hv

theorem mem_stuck : v ∈ g.stuck ↔
    ∃ n, (v, n) ∈ (Peel.run g g.length (Peel.start g)).degrees ∧ 0 < n := by
  unfold stuck
  simp [List.mem_mergeSort]

/-- Nothing is stuck if no counter is left above zero. -/
theorem stuck_eq_nil_iff : g.stuck = [] ↔
    ∀ entry ∈ (Peel.run g g.length (Peel.start g)).degrees, entry.2 = 0 := by
  rw [List.eq_nil_iff_forall_not_mem]
  constructor
  · intro h entry hentry
    by_contra hne
    exact h entry.1 (mem_stuck.2 ⟨entry.2, hentry, Nat.pos_of_ne_zero hne⟩)
  · intro h v hv
    obtain ⟨n, hn, hpos⟩ := mem_stuck.1 hv
    have hzero : n = 0 := h _ hn
    omega

/-- The state in which peeling a graph ends. -/
theorem exists_peeled (hg : g.WellFormed) :
    ∃ taken, Peeled g taken (Peel.run g g.length (Peel.start g)) ∧
      ((Peel.run g g.length (Peel.start g)).ready = [] ∨ g.nodes.length ≤ taken.length) := by
  obtain ⟨taken, hpeeled, hend⟩ := (Peeled.start hg).run hg g.length
  refine ⟨taken, hpeeled, hend.imp id fun hlen => ?_⟩
  rw [hlen, nodes, List.length_map]
  exact Nat.le_add_left _ _

/-- **If nothing is stuck, all nodes can be put in a row** in which every edge leads forward. -/
theorem exists_row (hg : g.WellFormed) (h : g.stuck = []) :
    ∃ row : List String, row.Nodup ∧ (∀ v, v ∈ row ↔ v ∈ g.nodes) ∧ g.Closed row := by
  obtain ⟨row, hrow, hend⟩ := exists_peeled hg
  refine ⟨row, hrow.once, fun v => ⟨fun hv => hrow.known hv, fun hv => ?_⟩, hrow.closed⟩
  rw [hrow.mem_taken_iff hend hv]
  have hcount := stuck_eq_nil_iff.1 h _ (Assoc.mem_of_get? (hrow.counts v hv))
  exact List.length_eq_zero_iff.1 hcount

end Graph

end Flowgraph
