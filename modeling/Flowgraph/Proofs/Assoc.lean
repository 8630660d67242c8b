import Flowgraph.Assoc
import Mathlib.Data.List.Nodup

/-!
# Entries of association lists

Entries whose keys are distinct are found by their keys, and stay as they are when they are put in
the order of authoring (`authored_of_nodup`). Entries in ascending order (`Ascending`) are
determined by the values of their keys (`Ascending.ext`), and stay as they are when they are put in
ascending order (`ascending_of_ascending`).
-/

set_option autoImplicit false

namespace Flowgraph.Assoc

variable {α : Type} {key : String} {value other : α} {entries others : List (String × α)}

/-! ### Entries by their keys -/

theorem mem_of_get? (h : get? key entries = some value) : (key, value) ∈ entries := by
  induction entries with
  | nil => cases h
  | cons e rest ih =>
    unfold get? at h
    split at h
    · obtain rfl := Option.some.inj h
      rename_i hkey
      rw [← hkey]
      exact List.mem_cons_self ..
    · exact List.mem_cons_of_mem _ (ih h)

theorem get?_of_mem (hkeys : (entries.map (·.1)).Nodup) (h : (key, value) ∈ entries) :
    get? key entries = some value := by
  induction entries with
  | nil => cases h
  | cons e rest ih =>
    obtain ⟨hhead, htail⟩ := List.nodup_cons.1 hkeys
    rcases List.mem_cons.1 h with rfl | h
    · simp [get?]
    · have hne : e.1 ≠ key := fun heq => hhead (List.mem_map.2 ⟨(key, value), h, heq.symm⟩)
      simp [get?, hne, ih htail h]

theorem get?_eq_some_iff (hkeys : (entries.map (·.1)).Nodup) :
    get? key entries = some value ↔ (key, value) ∈ entries :=
  ⟨mem_of_get?, get?_of_mem hkeys⟩

/-- The order of entries with distinct keys does not matter for a look-up. -/
theorem get?_perm (hkeys : (entries.map (·.1)).Nodup) (h : others.Perm entries) (key : String) :
    get? key others = get? key entries := by
  have hkeys' : (others.map (·.1)).Nodup := (h.map _).nodup_iff.2 hkeys
  refine Option.ext fun value => ?_
  rw [get?_eq_some_iff hkeys, get?_eq_some_iff hkeys', h.mem_iff]

/-- Of entries with distinct keys that are gone through in order, a key gets what its own entry puts
there. -/
theorem get?_foldl {β : Type} {put : List (String × β) → String × α → List (String × β)}
    {f : α → Option β} (hkeys : (entries.map (·.1)).Nodup)
    (hput : ∀ acc e, get? key (put acc e) =
      if e.1 = key then (f e.2).or (get? key acc) else get? key acc) (acc : List (String × β)) :
    get? key (entries.foldl put acc) = ((get? key entries).bind f).or (get? key acc) := by
  induction entries generalizing acc with
  | nil => rfl
  | cons e rest ih =>
    obtain ⟨hfirst, hrest⟩ := List.nodup_cons.1 hkeys
    rw [List.foldl_cons, ih hrest, hput, get?]
    by_cases heq : e.1 = key
    · -- no later entry has the key
      rw [if_pos heq, if_pos heq, get?_eq_none (heq ▸ hfirst)]
      rfl
    · rw [if_neg heq, if_neg heq]

theorem get?_map_of_mem {f : String → α} {names : List String} (h : key ∈ names) :
    get? key (names.map fun name => (name, f name)) = some (f key) := by
  induction names with
  | nil => cases h
  | cons name names ih =>
    by_cases hkey : name = key
    · simp [get?, hkey]
    · have hmem : key ∈ names := (List.mem_cons.1 h).resolve_left (Ne.symm hkey)
      simp [get?, hkey, ih hmem]

/-- Setting the value of a key that is there keeps all keys in their places. -/
theorem keys_set_of_get? (h : get? key entries = some value) :
    (set key other entries).map (·.1) = entries.map (·.1) := by
  induction entries with
  | nil => cases h
  | cons e rest ih =>
    unfold get? at h
    unfold set
    split at h
    · rename_i hkey
      rw [if_pos hkey, List.map_cons, List.map_cons, hkey]
    · rename_i hkey
      rw [if_neg hkey, List.map_cons, List.map_cons, ih h]

theorem keys_set (key : String) (value : α) (entries : List (String × α)) :
    (set key value entries).map (·.1) =
      if key ∈ entries.map (·.1) then entries.map (·.1) else entries.map (·.1) ++ [key] := by
  induction entries with
  | nil => simp [set]
  | cons e rest ih =>
    obtain ⟨k, v⟩ := e
    by_cases h : k = key
    · simp [set, h]
    · simp only [set, if_neg h, List.map_cons, ih, List.mem_cons, Ne.symm h, false_or]
      split <;> rfl

theorem set_of_notMem (h : key ∉ entries.map (·.1)) :
    set key value entries = entries ++ [(key, value)] := by
  induction entries with
  | nil => rfl
  | cons e rest ih =>
    simp only [List.map_cons, List.mem_cons, not_or] at h
    rw [set, if_neg (Ne.symm h.1), ih h.2]
    rfl

theorem mem_set {e : String × α} (h : e ∈ set key value entries) :
    e = (key, value) ∨ e ∈ entries := by
  induction entries with
  | nil => exact Or.inl (List.mem_singleton.1 h)
  | cons first rest ih =>
    unfold set at h
    split at h
    · exact (List.mem_cons.1 h).imp_right (List.mem_cons_of_mem _)
    · rcases List.mem_cons.1 h with rfl | h
      · exact Or.inr (List.mem_cons_self ..)
      · exact (ih h).imp_right (List.mem_cons_of_mem _)

/-! ### The order of authoring -/

theorem nodup_keys_set (h : (entries.map (·.1)).Nodup) :
    ((set key value entries).map (·.1)).Nodup := by
  rw [keys_set]
  split
  · exact h
  · rename_i hkey
    exact List.nodup_append'.2 ⟨h, List.nodup_singleton _, List.disjoint_singleton.2 hkey⟩

theorem nodup_keys_authored (entries : List (String × α)) :
    ((authored entries).map (·.1)).Nodup := by
  refine List.foldlRecOn (motive := fun acc : List (String × α) => (acc.map (·.1)).Nodup)
    entries _ ?_ fun _ h _ _ => nodup_keys_set h
  exact List.nodup_nil

theorem mem_of_mem_authored {e : String × α} (h : e ∈ authored entries) : e ∈ entries :=
  List.foldlRecOn (motive := fun acc => e ∈ acc → e ∈ entries) entries _
    (fun hnil => absurd hnil List.not_mem_nil)
    (fun _ ih _ hfirst hmem => (mem_set hmem).elim (fun heq => heq ▸ hfirst) ih) h

/-- Entries with distinct keys are in the order of authoring. -/
theorem authored_of_nodup (h : (entries.map (·.1)).Nodup) : authored entries = entries := by
  suffices hput : ∀ acc : List (String × α), ((acc ++ entries).map (·.1)).Nodup →
      entries.foldl (fun acc e => set e.1 e.2 acc) acc = acc ++ entries from hput [] h
  clear h
  induction entries with
  | nil => simp
  | cons e rest ih =>
    intro acc hnodup
    have hnotMem : e.1 ∉ acc.map (·.1) := by
      rw [List.map_append, List.nodup_append'] at hnodup
      exact fun hmem => hnodup.2.2 hmem (List.mem_cons_self ..)
    rw [List.foldl_cons, set_of_notMem hnotMem, ih (acc ++ [e]) (by simpa using hnodup)]
    simp

/-! ### Entries in ascending order -/

/-- Whether the keys of some entries are ascending, each key once. -/
def Ascending (entries : List (String × α)) : Prop := (entries.map (·.1)).Pairwise (· < ·)

theorem ascending_cons {e : String × α} :
    Ascending (e :: entries) ↔ (∀ e' ∈ entries, e.1 < e'.1) ∧ Ascending entries := by
  rw [Ascending, List.map_cons, List.pairwise_cons, List.forall_mem_map]
  exact Iff.rfl

theorem mem_insert {e : String × α} (h : e ∈ insert key value entries) :
    e = (key, value) ∨ e ∈ entries := by
  induction entries with
  | nil => exact Or.inl (List.mem_singleton.1 h)
  | cons first rest ih =>
    unfold insert at h
    split at h
    · exact (List.mem_cons.1 h).imp_right (List.mem_cons_of_mem _)
    · split at h
      · exact List.mem_cons.1 h
      · rcases List.mem_cons.1 h with rfl | h
        · exact Or.inr (List.mem_cons_self ..)
        · exact (ih h).imp_right (List.mem_cons_of_mem _)

theorem Ascending.insert (h : Ascending entries) : Ascending (insert key value entries) := by
  induction entries with
  | nil => exact List.pairwise_singleton _ _
  | cons first rest ih =>
    obtain ⟨hfirst, hrest⟩ := ascending_cons.1 h
    unfold Assoc.insert
    split
    case isTrue heq => exact ascending_cons.2 ⟨fun e he => heq ▸ hfirst e he, hrest⟩
    case isFalse hne =>
      split
      case isTrue hlt =>
        refine ascending_cons.2 ⟨fun e he => ?_, h⟩
        rcases List.mem_cons.1 he with rfl | he
        · exact hlt
        · exact String.lt_trans hlt (hfirst e he)
      case isFalse hnot =>
        refine ascending_cons.2 ⟨fun e he => ?_, ih hrest⟩
        rcases mem_insert he with rfl | he
        · exact Classical.byContradiction fun hge =>
            hne (String.le_antisymm (String.not_lt.1 hnot) (String.not_lt.1 hge))
        · exact hfirst e he

theorem Ascending.erase (h : Ascending entries) : Ascending (erase key entries) :=
  List.Pairwise.sublist (List.filter_sublist.map _) h

/-- A key that comes before all others has no value among them. -/
theorem get?_eq_none_of_lt (h : ∀ e ∈ entries, key < e.1) : get? key entries = none := by
  refine get?_eq_none fun hmem => ?_
  obtain ⟨e, he, rfl⟩ := List.mem_map.1 hmem
  exact String.lt_irrefl _ (h e he)

/-- No key with a value comes before the first one. -/
theorem Ascending.first_le {first : String × α} (h : Ascending (first :: entries))
    (hsome : get? key (first :: entries) ≠ none) : first.1 ≤ key := by
  obtain ⟨hfirst, -⟩ := ascending_cons.1 h
  refine String.not_lt.1 fun hlt => hsome (get?_eq_none_of_lt fun e he => ?_)
  rcases List.mem_cons.1 he with rfl | he
  · exact hlt
  · exact String.lt_trans hlt (hfirst e he)

/-- **Entries in ascending order are told apart by the values of the keys.** -/
theorem Ascending.ext (h : Ascending entries) (h' : Ascending others)
    (hsame : ∀ key, get? key entries = get? key others) : entries = others := by
  induction entries generalizing others with
  | nil =>
    cases others with
    | nil => rfl
    | cons e rest =>
      have hnone := hsame e.1
      simp [get?] at hnone
  | cons first rest ih =>
    cases others with
    | nil =>
      have hnone := hsame first.1
      simp [get?] at hnone
    | cons first' rest' =>
      obtain ⟨k, v⟩ := first
      obtain ⟨k', v'⟩ := first'
      have hsome : get? k ((k, v) :: rest) = some v := if_pos rfl
      have hsome' : get? k' ((k', v') :: rest') = some v' := if_pos rfl
      -- each first key has a value on the other side, so neither comes before the other
      obtain rfl : k = k' := by
        refine String.le_antisymm (h.first_le ?_) (h'.first_le ?_)
        · rw [hsame, hsome']
          exact Option.some_ne_none v'
        · rw [← hsame, hsome]
          exact Option.some_ne_none v
      obtain rfl : v = v' := Option.some.inj (hsome.symm.trans ((hsame k).trans hsome'))
      obtain ⟨hfirst, hrest⟩ := ascending_cons.1 h
      obtain ⟨hfirst', hrest'⟩ := ascending_cons.1 h'
      rw [ih hrest hrest' fun key => ?_]
      by_cases hkey : k = key
      · subst hkey
        rw [get?_eq_none_of_lt hfirst, get?_eq_none_of_lt hfirst']
      · have hkeys := hsame key
        rwa [get?, get?, if_neg hkey, if_neg hkey] at hkeys

theorem Ascending.nodup_keys (h : Ascending entries) : (entries.map (·.1)).Nodup :=
  List.Pairwise.imp String.ne_of_lt h

/-- Ascending entries are determined by what is among them. -/
theorem Ascending.ext_mem (h : Ascending entries) (h' : Ascending others)
    (hsame : ∀ e, e ∈ entries ↔ e ∈ others) : entries = others := by
  refine h.ext h' fun key => Option.ext fun value => ?_
  rw [get?_eq_some_iff h.nodup_keys, get?_eq_some_iff h'.nodup_keys, hsame]

theorem ascending_ascending (entries : List (String × α)) : Ascending (ascending entries) :=
  List.foldlRecOn entries _ List.Pairwise.nil fun _ h _ _ => h.insert

theorem mem_of_mem_ascending {e : String × α} (h : e ∈ ascending entries) : e ∈ entries :=
  List.foldlRecOn (motive := fun acc => e ∈ acc → e ∈ entries) entries _
    (fun hnil => absurd hnil List.not_mem_nil)
    (fun _ ih _ hfirst hmem => (mem_insert hmem).elim (fun heq => heq ▸ hfirst) ih) h

theorem insert_of_lt (h : ∀ e ∈ entries, e.1 < key) :
    insert key value entries = entries ++ [(key, value)] := by
  induction entries with
  | nil => rfl
  | cons e rest ih =>
    obtain ⟨hfirst, hrest⟩ := List.forall_mem_cons.1 h
    rw [insert, if_neg (String.ne_of_lt hfirst), if_neg (String.lt_asymm hfirst), ih hrest]
    rfl

/-- Entries in ascending order stay as they are. -/
theorem ascending_of_ascending (h : Ascending entries) : ascending entries = entries := by
  suffices hput : ∀ acc : List (String × α), Ascending (acc ++ entries) →
      entries.foldl (fun acc e => insert e.1 e.2 acc) acc = acc ++ entries from hput [] h
  clear h
  induction entries with
  | nil => simp
  | cons e rest ih =>
    intro acc hascending
    have hlt : ∀ first ∈ acc, first.1 < e.1 := by
      rw [Ascending, List.map_append, List.pairwise_append] at hascending
      exact fun first hfirst =>
        hascending.2.2 first.1 (List.mem_map_of_mem hfirst) e.1 (List.mem_cons_self ..)
    rw [List.foldl_cons, insert_of_lt hlt, ih (acc ++ [e]) (by simpa using hascending)]
    simp

end Flowgraph.Assoc
