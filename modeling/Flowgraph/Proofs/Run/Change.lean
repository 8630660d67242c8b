import Flowgraph.Proofs.Run.Replay
import Mathlib.Data.Set.Basic

/-!
# Changes of the variables

A piece of work that succeeds or fails by the values that it finds is a `Change`: from the values
before it to those after it, if it succeeds. Changes are put together one after the other, from
the front of a list (`inTurn`) or from its back (`settle`).

A change is `Confined` to the variables that it reads and writes if it leaves all others alone and
cannot tell states apart that agree on what it reads. **Changes that are confined to variables of
their own commute** (`Confined.commutes`): what the one writes the other neither reads nor writes,
so they come to the same end in either order, also if one of them fails.
-/

set_option autoImplicit false

namespace Flowgraph.Run

/-- The values of the variables. -/
abbrev Values := String → Option Json.Value

/-- What a piece of work makes of the values, if it succeeds. -/
abbrev Change := Values → Option Values

namespace Change

/-- The change that changes nothing. -/
def keep : Change := some

/-- The change that never succeeds. -/
def fail : Change := fun _ => none

/-- One change after another. -/
def andThen (a b : Change) : Change := fun v => (a v).bind b

/-- Changes one after the other, the first one first. -/
def inTurn : List Change → Change
  | [] => keep
  | c :: rest => c.andThen (inTurn rest)

/-- Changes one after the other, the last one first. -/
def settle : List Change → Change
  | [] => keep
  | c :: rest => (settle rest).andThen c

variable {a b c c' : Change} {changes others : List Change} {v v' : Values} {i : Nat}

@[simp] theorem keep_andThen : keep.andThen a = a := rfl

@[simp] theorem andThen_keep : a.andThen keep = a := by
  funext v
  exact Option.bind_fun_some (a v)

@[simp] theorem fail_andThen : fail.andThen a = fail := rfl

@[simp] theorem andThen_fail : a.andThen fail = fail := by
  funext v
  exact Option.bind_fun_none (a v)

theorem andThen_assoc : (a.andThen b).andThen c = a.andThen (b.andThen c) := by
  funext v
  exact Option.bind_assoc ..

theorem settle_append : settle (changes ++ others) = (settle others).andThen (settle changes) := by
  induction changes with
  | nil => exact andThen_keep.symm
  | cons c changes ih =>
    show (settle (changes ++ others)).andThen c = _
    rw [ih, andThen_assoc]
    rfl

/-- Changes of which one fails do not succeed. -/
theorem settle_of_fail (h : fail ∈ changes) : settle changes = fail := by
  induction changes with
  | nil => cases h
  | cons c changes ih =>
    show (settle changes).andThen c = fail
    rcases List.mem_cons.1 h with rfl | h
    · exact andThen_fail
    · rw [ih h, fail_andThen]

/-- Changes that change nothing. -/
theorem settle_of_keep (h : ∀ c ∈ changes, c = keep) : settle changes = keep := by
  induction changes with
  | nil => rfl
  | cons c changes ih =>
    show (settle changes).andThen c = keep
    rw [ih fun c hc => h c (List.mem_cons_of_mem _ hc), h c (List.mem_cons_self ..), keep_andThen]

/-! ### Changes that commute -/

/-- Whether two changes can be made in either order. -/
def Commutes (a b : Change) : Prop := a.andThen b = b.andThen a

theorem Commutes.keep : Commutes keep a := andThen_keep.symm

theorem Commutes.settle (h : ∀ c ∈ changes, Commutes c b) : Commutes (settle changes) b := by
  induction changes with
  | nil => exact Commutes.keep
  | cons c changes ih =>
    have hrest := ih fun c hc => h c (List.mem_cons_of_mem _ hc)
    have hfirst := h c (List.mem_cons_self ..)
    show ((Change.settle changes).andThen c).andThen b = b.andThen ((Change.settle changes).andThen c)
    rw [andThen_assoc, hfirst, ← andThen_assoc, hrest, andThen_assoc]

/-- The place of a change in a list. -/
theorem settle_set (h : changes[i]? = some c) (c' : Change) :
    settle (changes.set i c') = (settle (changes.drop (i + 1))).andThen
      (c'.andThen (settle (changes.take i))) := by
  obtain ⟨hi, -⟩ := List.getElem?_eq_some_iff.1 h
  rw [List.set_eq_take_append_cons_drop, if_pos hi, settle_append]
  show ((settle _).andThen c').andThen _ = _
  rw [andThen_assoc]

theorem settle_eq (h : changes[i]? = some c) :
    settle changes = (settle (changes.drop (i + 1))).andThen
      (c.andThen (settle (changes.take i))) := by
  rw [← settle_set h, set_self h]

/-- **A change that has been made in part** can be replaced by the rest of it, if the changes that
come before it commute with both. -/
theorem settle_part (h : changes[i]? = some c)
    (hbefore : ∀ p ∈ changes.drop (i + 1), Commutes p c ∧ Commutes p c') (hpart : c' v' = c v) :
    settle (changes.set i c') v' = settle changes v := by
  have hc := Commutes.settle fun p hp => (hbefore p hp).1
  have hc' := Commutes.settle fun p hp => (hbefore p hp).2
  rw [settle_set h, settle_eq h, ← andThen_assoc, ← andThen_assoc, hc, hc', andThen_assoc,
    andThen_assoc]
  simp only [andThen, hpart]

/-- **A change that others have taken over in part**: it is replaced by the rest of it, and they
come at the end of the list. -/
theorem settle_fork (h : changes[i]? = some c)
    (hbefore : ∀ p ∈ changes.drop (i + 1), Commutes p (settle others))
    (hpart : c = (settle others).andThen c') :
    settle (changes.set i c' ++ others) = settle changes := by
  have hothers := Commutes.settle hbefore
  rw [settle_append, settle_set h, settle_eq h, hpart, ← andThen_assoc, ← hothers, andThen_assoc,
    andThen_assoc]

/-! ### Changes with their own variables -/

/-- Whether a change writes at most some variables and depends on others at most. -/
structure Confined (reads writes : Set String) (c : Change) : Prop where
  /-- All other variables stay as they are. -/
  frame : ∀ v v', c v = some v' → ∀ key ∉ writes, v' key = v key
  /-- Where the values that are read are the same, the same is done: either both fail, or the same
  is written to the same variables. -/
  alike : ∀ v u, (∀ key ∈ reads, v key = u key) →
    (c v = none ∧ c u = none) ∨ ∃ v' u', c v = some v' ∧ c u = some u' ∧
      ∀ key, v' key = u' key ∨ (v' key = v key ∧ u' key = u key)

namespace Confined

variable {reads writes reads' writes' : Set String}

theorem mono (h : Confined reads writes c) (hreads : reads ⊆ reads') (hwrites : writes ⊆ writes') :
    Confined reads' writes' c where
  frame v v' hv key hkey := h.frame v v' hv key fun hmem => hkey (hwrites hmem)
  alike v u hsame := h.alike v u fun key hkey => hsame key (hreads hkey)

theorem keep : Confined reads writes keep where
  frame v v' hv key _ := by rw [Option.some.inj hv]
  alike v u _ := Or.inr ⟨v, u, rfl, rfl, fun _ => Or.inr ⟨rfl, rfl⟩⟩

theorem fail : Confined reads writes fail where
  frame v v' hv := by cases hv
  alike v u _ := Or.inl ⟨rfl, rfl⟩

theorem andThen (ha : Confined reads writes a) (hb : Confined reads writes b) :
    Confined reads writes (a.andThen b) where
  frame v v'' hv key hkey := by
    obtain ⟨v', hv', hv''⟩ := Option.bind_eq_some_iff.1 hv
    rw [hb.frame v' v'' hv'' key hkey, ha.frame v v' hv' key hkey]
  alike v u hsame := by
    rcases ha.alike v u hsame with ⟨hv, hu⟩ | ⟨v', u', hv, hu, hab⟩
    · exact Or.inl ⟨by rw [Change.andThen, hv]; rfl, by rw [Change.andThen, hu]; rfl⟩
    · -- what the second change reads is as it was, or the first one has written it
      have hsame' : ∀ key ∈ reads, v' key = u' key := by
        intro key hkey
        rcases hab key with heq | ⟨hv', hu'⟩
        · exact heq
        · rw [hv', hu', hsame key hkey]
      have hv2 : a.andThen b v = b v' := by rw [Change.andThen, hv]; rfl
      have hu2 : a.andThen b u = b u' := by rw [Change.andThen, hu]; rfl
      rw [hv2, hu2]
      refine (hb.alike v' u' hsame').imp_right ?_
      rintro ⟨v'', u'', hv'', hu'', hbc⟩
      refine ⟨v'', u'', hv'', hu'', fun key => ?_⟩
      rcases hbc key with heq | ⟨hvkey, hukey⟩
      · exact Or.inl heq
      · rw [hvkey, hukey]
        exact hab key

theorem inTurn (h : ∀ c ∈ changes, Confined reads writes c) :
    Confined reads writes (inTurn changes) := by
  induction changes with
  | nil => exact keep
  | cons c changes ih =>
    exact (h c (List.mem_cons_self ..)).andThen (ih fun c hc => h c (List.mem_cons_of_mem _ hc))

theorem settle (h : ∀ c ∈ changes, Confined reads writes c) :
    Confined reads writes (settle changes) := by
  induction changes with
  | nil => exact keep
  | cons c changes ih =>
    exact (ih fun c hc => h c (List.mem_cons_of_mem _ hc)).andThen (h c (List.mem_cons_self ..))

/-- A change does the same after another one that leaves its variables alone. -/
theorem after (ha : Confined reads writes a) (hb : Confined reads' writes' b)
    (hreads : ∀ key ∈ writes', key ∉ reads) (hb' : b v = some v') :
    (a v = none ∧ a v' = none) ∨ ∃ w w', a v = some w ∧ a v' = some w' ∧
      ∀ key, w key = w' key ∨ (w key = v key ∧ w' key = v' key) :=
  ha.alike v v' fun key hkey => (hb.frame v v' hb' key fun hmem => hreads key hmem hkey).symm

/-- **Changes with their own variables commute.** -/
theorem commutes (ha : Confined reads writes a) (hb : Confined reads' writes' b)
    (hwrites : ∀ key ∈ writes, key ∉ writes' ∧ key ∉ reads')
    (hreads : ∀ key ∈ writes', key ∉ reads) : Commutes a b := by
  funext v
  show (a v).bind b = (b v).bind a
  cases hav : a v with
  | none =>
    cases hbv : b v with
    | none => rfl
    | some v₂ =>
      rcases ha.after hb hreads hbv with ⟨-, hnone⟩ | ⟨_, _, hsome, -⟩
      · exact hnone.symm
      · rw [hav] at hsome
        cases hsome
  | some v₁ =>
    have hb₁ := hb.after ha (fun key hkey => (hwrites key hkey).2) hav
    cases hbv : b v with
    | none =>
      rcases hb₁ with ⟨-, hnone⟩ | ⟨_, _, hsome, -⟩
      · exact hnone
      · rw [hbv] at hsome
        cases hsome
    | some v₂ =>
      rcases hb₁ with ⟨hnone, -⟩ | ⟨w₂, v₁₂, hw₂, hv₁₂, hboth₂⟩
      · rw [hbv] at hnone
        cases hnone
      · rcases ha.after hb hreads hbv with ⟨hnone, -⟩ | ⟨w₁, v₂₁, hw₁, hv₂₁, hboth₁⟩
        · rw [hav] at hnone
          cases hnone
        · obtain rfl : v₂ = w₂ := Option.some.inj (hbv.symm.trans hw₂)
          obtain rfl : v₁ = w₁ := Option.some.inj (hav.symm.trans hw₁)
          show b v₁ = a v₂
          rw [hv₁₂, hv₂₁]
          congr 1
          funext key
          by_cases hkey : key ∈ writes
          · -- written by the first change alone
            have hother := (hwrites key hkey).1
            have h₂ := hb.frame v v₂ hbv key hother
            rw [hb.frame v₁ v₁₂ hv₁₂ key hother]
            rcases hboth₁ key with heq | ⟨hsame, hsame'⟩
            · exact heq
            · rw [hsame, hsame', h₂]
          · have h₁ := ha.frame v v₁ hav key hkey
            rw [ha.frame v₂ v₂₁ hv₂₁ key hkey]
            rcases hboth₂ key with heq | ⟨hsame, hsame'⟩
            · exact heq.symm
            · rw [hsame, hsame', h₁]

end Confined

end Change

end Flowgraph.Run
