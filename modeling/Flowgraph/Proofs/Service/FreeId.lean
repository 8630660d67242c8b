import Flowgraph.Service.Basic
import Mathlib.Data.List.Nodup
import Mathlib.Data.List.Perm.Subperm
import Mathlib.Tactic.Ring
import Std.Data.String.ToInt

/-!
# Ids for new runs

The id of a run is made of a name and a time. For one name the ids of different times differ, so
of one id more than there are runs one is free, and moving the time on that often is enough: a
new run gets the **first id from its time on that no run has** (`freeId_firstFree`). This asks
nothing of the name, the time or the ids that are taken, which may be those of other names.
-/

set_option autoImplicit false

namespace Flowgraph.Service

variable {entries : List (String × Nat)} {name id : String} {clock : Int}

theorem idOf_inj {t u : Int} : idOf name t = idOf name u ↔ t = u := by
  refine ⟨fun h => ?_, fun h => h ▸ rfl⟩
  have htext : (name ++ "-") ++ t.repr = (name ++ "-") ++ u.repr := h
  exact Int.repr_inj.1 (String.append_right_inj _ |>.1 htext)

theorem contains_eq_false_iff :
    Assoc.contains id entries = false ↔ Assoc.get? id entries = none := by
  unfold Assoc.contains
  cases Assoc.get? id entries <;> simp

theorem mem_keys_of_contains (h : Assoc.contains id entries = true) :
    id ∈ entries.map (·.1) := by
  by_contra hmem
  rw [contains_eq_false_iff.2 (Assoc.get?_eq_none hmem)] at h
  cases h

/-- How far a time is moved on: all ids before are taken, and the one that is reached is free. -/
structure FirstFree (entries : List (String × Nat)) (name : String) (clock : Int) (k : Nat) :
    Prop where
  taken : ∀ i < k, Assoc.contains (idOf name (clock + i)) entries = true
  free : Assoc.get? (idOf name (clock + k)) entries = none

/-- There are no fewer runs than ids that are taken in a row. -/
theorem le_of_taken {k : Nat}
    (h : ∀ i < k, Assoc.contains (idOf name (clock + i)) entries = true) :
    k ≤ entries.length := by
  have hnodup : ((List.range k).map fun i : Nat => idOf name (clock + i)).Nodup := by
    refine List.Nodup.map ?_ List.nodup_range
    intro i j hij
    have := idOf_inj.1 hij
    omega
  have hsub : ((List.range k).map fun i : Nat => idOf name (clock + i)) ⊆ entries.map (·.1) := by
    intro id hid
    obtain ⟨i, hi, rfl⟩ := List.mem_map.1 hid
    exact mem_keys_of_contains (h i (List.mem_range.1 hi))
  simpa using (hnodup.subperm hsub).length_le

/-- The search stops at an id that is free unless it has been cut short. -/
theorem freeId_eq (entries : List (String × Nat)) (name : String) (clock : Int) (fuel : Nat) :
    ∃ k ≤ fuel, freeId entries name fuel clock = idOf name (clock + k) ∧
      (∀ i < k, Assoc.contains (idOf name (clock + i)) entries = true) ∧
      (k < fuel → Assoc.get? (idOf name (clock + k)) entries = none) := by
  induction fuel generalizing clock with
  | zero => exact ⟨0, le_rfl, by simp [freeId], by simp, by simp⟩
  | succ fuel ih =>
    unfold freeId
    cases htaken : Assoc.contains (idOf name clock) entries with
    | false =>
      refine ⟨0, Nat.zero_le _, by simp, by simp, fun _ => ?_⟩
      simpa using contains_eq_false_iff.1 htaken
    | true =>
      obtain ⟨k, hk, heq, hbefore, hfree⟩ := ih (clock + 1)
      have hmove (i : Nat) : clock + 1 + (i : Int) = clock + ((i + 1 : Nat) : Int) := by
        push_cast
        ring
      refine ⟨k + 1, by omega, ?_, ?_, ?_⟩
      · rw [if_pos rfl, heq, hmove]
      · intro i hi
        cases i with
        | zero => simpa using htaken
        | succ i => rw [← hmove]; exact hbefore i (by omega)
      · intro hlt
        rw [← hmove]
        exact hfree (by omega)

/-- **A new run gets the first id from its time on that no run has.** -/
theorem freeId_firstFree (entries : List (String × Nat)) (name : String) (clock : Int) :
    ∃ k : Nat, freeId entries name entries.length clock = idOf name (clock + k) ∧
      FirstFree entries name clock k := by
  obtain ⟨k, hk, heq, htaken, hfree⟩ := freeId_eq entries name clock entries.length
  refine ⟨k, heq, htaken, ?_⟩
  rcases Nat.lt_or_eq_of_le hk with hlt | rfl
  · exact hfree hlt
  · -- all the runs have an id before this one, so none is left to have it
    by_contra hsome
    have hthis : Assoc.contains (idOf name (clock + entries.length)) entries = true := by
      rw [← Bool.not_eq_false, contains_eq_false_iff]
      exact hsome
    have htoo : ∀ i < entries.length + 1,
        Assoc.contains (idOf name (clock + i)) entries = true := by
      intro i hi
      rcases Nat.lt_or_eq_of_le (Nat.lt_succ_iff.1 hi) with hi | rfl
      · exact htaken i hi
      · exact hthis
    have := le_of_taken htoo
    omega

end Flowgraph.Service
