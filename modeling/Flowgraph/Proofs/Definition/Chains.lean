import Flowgraph.Proofs.Definition.References
import Mathlib.Algebra.BigOperators.Fin
import Mathlib.Data.Set.Card

/-!
# How many chains of references lead to a step

A step can be reached from the root in more than one way. In a sound definition there are only
finitely many chains of references to it, and they can be counted from the back: those that go
through a step are those that go through one of its references, and one more if the step is
itself where they lead (`Definition.Counts`). Numbers with this property exist
(`Sound.exists_counts`), and the one of the root is the number of all chains (`Sound.chains`).
-/

set_option autoImplicit false

namespace Flowgraph.Definition

variable {d : Definition} {s t : Step} {p : Step → Nat} {chain longer : List Nat} {n : Nat}

/-- Whether no chain of references leads from the root to a condition. -/
def Unconditional (d : Definition) : Prop :=
  ∀ (chain : List Nat) (step : Step), d.at? chain = some step →
    ∀ choice, step.work ≠ .condition choice

/-- The number of the step that a reference leads to, if it leads anywhere. -/
def across (d : Definition) (p : Step → Nat) (target : String) : Nat := (d.find? target).elim 0 p

/-- Whether the steps are given the numbers of chains that lead from them to `s`. Each reference
counts on its own, also where two lead to the same step. -/
def Counts (d : Definition) (s : Step) (p : Step → Nat) : Prop :=
  ∀ t ∈ d.steps,
    p t = (if t = s then 1 else 0) + (t.references.map fun r => d.across p r.target).sum

theorem Sound.exists_counts (h : d.Sound) (s : Step) : ∃ p, d.Counts s p := by
  apply h.exists_values
  intro t ht p p' hsame
  dsimp only
  congr 2
  apply List.map_congr_left
  intro r hr
  obtain ⟨u, hu⟩ := h.target ht hr
  simp only [across, hu, Option.elim_some]
  exact hsame u ⟨r, hr, hu⟩

/-! ### Longer chains -/

/-- A part of a chain leads somewhere. -/
theorem exists_at?_of_suffix (h : d.at? longer = some s) (hsuffix : chain <:+ longer) :
    ∃ t, d.at? chain = some t := by
  induction longer generalizing s with
  | nil =>
    rw [List.suffix_nil.1 hsuffix]
    exact ⟨s, h⟩
  | cons n longer ih =>
    rcases List.suffix_cons_iff.1 hsuffix with rfl | hsuffix
    · exact ⟨s, h⟩
    · obtain ⟨u, -, hu, -, -⟩ := exists_of_at?_cons h
      exact ih hu hsuffix

/-- A chain that is longer goes on with one of the references. -/
theorem suffix_iff_of_at? (h : d.at? longer = some s) (ht : d.at? chain = some t) :
    chain <:+ longer ↔ longer = chain ∨ ∃ n : Fin t.references.length, n.val :: chain <:+ longer := by
  constructor
  · rintro ⟨more, rfl⟩
    rcases List.eq_nil_or_concat more with rfl | ⟨more, n, rfl⟩
    · exact Or.inl rfl
    · have hsuffix : n :: chain <:+ more.concat n ++ chain := ⟨more, by simp⟩
      obtain ⟨u, hu⟩ := exists_at?_of_suffix h hsuffix
      obtain ⟨t', r, ht', hr, -⟩ := exists_of_at?_cons hu
      obtain rfl : t' = t := Option.some.inj (ht'.symm.trans ht)
      obtain ⟨hn, -⟩ := List.getElem?_eq_some_iff.1 hr
      exact Or.inr ⟨⟨n, hn⟩, hsuffix⟩
  · rintro (rfl | ⟨n, hsuffix⟩)
    · exact List.suffix_refl _
    · exact (List.suffix_cons n.val chain).trans hsuffix

/-- A chain cannot go on in two ways. -/
theorem eq_of_suffix {m n : Nat} (hm : m :: chain <:+ longer) (hn : n :: chain <:+ longer) :
    m = n := by
  have hsuffix := List.suffix_of_suffix_length_le hm hn (Nat.le_refl _)
  exact List.head_eq_of_cons_eq (hsuffix.eq_of_length rfl)

/-! ### Counting them -/

/-- Whether a finite set is that of the chains to `s` that go on from another chain. -/
def Collects (d : Definition) (s : Step) (chain : List Nat) (all : Finset (List Nat)) : Prop :=
  ∀ longer, longer ∈ all ↔ d.at? longer = some s ∧ chain <:+ longer

/-- The chains that go on from a chain are those that go on by one of the references, and the chain
itself if it leads to `s`. -/
theorem exists_collects (ht : d.at? chain = some t)
    {through : Fin t.references.length → Finset (List Nat)}
    (hthrough : ∀ n, d.Collects s (n.val :: chain) (through n)) :
    ∃ all, d.Collects s chain all ∧
      all.card = (if t = s then 1 else 0) + ∑ n, (through n).card := by
  have hdisjoint : ∀ m ∈ Finset.univ, ∀ n ∈ Finset.univ, m ≠ n →
      Disjoint (through m) (through n) := by
    intro m _ n _ hne
    refine Finset.disjoint_left.2 fun longer hm hn => hne (Fin.ext ?_)
    exact eq_of_suffix ((hthrough m longer).1 hm).2 ((hthrough n longer).1 hn).2
  have hself : Disjoint (if t = s then {chain} else ∅) (Finset.univ.biUnion through) := by
    refine Finset.disjoint_left.2 fun longer hchain hmem => ?_
    obtain ⟨n, -, hn⟩ := Finset.mem_biUnion.1 hmem
    have hle := ((hthrough n longer).1 hn).2.length_le
    split at hchain
    · rw [Finset.mem_singleton.1 hchain, List.length_cons] at hle
      omega
    · simp at hchain
  refine ⟨(if t = s then {chain} else ∅) ∪ Finset.univ.biUnion through, fun longer => ?_, ?_⟩
  · rw [Finset.mem_union, Finset.mem_biUnion]
    constructor
    · rintro (hchain | ⟨n, -, hn⟩)
      · split at hchain
        · rename_i heq
          rw [Finset.mem_singleton.1 hchain, ← heq]
          exact ⟨ht, List.suffix_refl _⟩
        · simp at hchain
      · obtain ⟨hat, hsuffix⟩ := (hthrough n longer).1 hn
        exact ⟨hat, (List.suffix_cons n.val chain).trans hsuffix⟩
    · rintro ⟨hat, hsuffix⟩
      rcases (suffix_iff_of_at? hat ht).1 hsuffix with rfl | ⟨n, hn⟩
      · left
        rw [if_pos (Option.some.inj (ht.symm.trans hat))]
        exact Finset.mem_singleton_self _
      · exact Or.inr ⟨n, Finset.mem_univ n, (hthrough n longer).2 ⟨hat, hn⟩⟩
  · rw [Finset.card_union_of_disjoint hself, Finset.card_biUnion hdisjoint]
    congr 1
    split <;> rfl

/-- **The number of a step is the number of chains through it**, for each way to get to it. -/
theorem Sound.card_collects (h : d.Sound) (hp : d.Counts s p) (ht : d.at? chain = some t) :
    ∃ all, d.Collects s chain all ∧ all.card = p t := by
  -- by induction on how much longer a chain can get
  induction hlonger : d.steps.length - chain.length generalizing chain t with
  | zero =>
    have hlt := h.length_lt ht
    omega
  | succ k ih =>
    have htmem := at?_mem ht
    have hlt := h.length_lt ht
    have hnext : ∀ n : Fin t.references.length, ∃ all, d.Collects s (n.val :: chain) all ∧
        all.card = d.across p t.references[n].target := by
      intro n
      obtain ⟨u, hu⟩ := h.target htmem (List.getElem_mem n.isLt)
      have hat : d.at? (n.val :: chain) = some u := by
        rw [at?_cons ht (List.getElem?_eq_getElem n.isLt), hu]
      obtain ⟨all, hall, hcard⟩ := ih hat (by rw [List.length_cons]; omega)
      refine ⟨all, hall, ?_⟩
      rw [hcard, across, Fin.getElem_fin, hu, Option.elim_some]
    choose through hthrough hcard using hnext
    obtain ⟨all, hall, hsum⟩ := exists_collects ht hthrough
    refine ⟨all, hall, ?_⟩
    rw [hsum, hp t htmem, ← Fin.sum_univ_fun_getElem]
    congr 1
    exact Finset.sum_congr rfl fun n _ => hcard n

/-- **The number of the root is that of all chains to the step.** -/
theorem Sound.chains (h : d.Sound) (hp : d.Counts s p) :
    {chain | d.at? chain = some s}.Finite ∧
      {chain | d.at? chain = some s}.ncard = d.across p d.root := by
  obtain ⟨root, hroot⟩ := h.rootStep
  have hfind : d.find? d.root = some root := hroot
  have hat : d.at? [] = some root := hroot
  obtain ⟨all, hall, hcard⟩ := h.card_collects hp hat
  have hset : {chain | d.at? chain = some s} = ↑all := by
    ext chain
    rw [Finset.mem_coe, hall]
    exact ⟨fun hat => ⟨hat, List.nil_suffix⟩, And.left⟩
  rw [hset, Set.ncard_coe_finset, hcard, across, hfind, Option.elim_some]
  exact ⟨all.finite_toSet, rfl⟩

end Flowgraph.Definition
