import Flowgraph.Proofs.Assoc
import Flowgraph.Proofs.Decode.Written

/-!
# What a decoded value has been found in

A decoder that succeeds says where each part of its result comes from. `record_eq_ok` finds the
fields of a record in the parts of the tree, `Tagged.decode_eq_ok` the content of the alternative
that was chosen; a field that is not found has the value it has when it is missing.
-/

set_option autoImplicit false

namespace Flowgraph.Decode

variable {α β γ : Type} {name title : String} {names : List String} {mode : Mode} {n : Nat}
  {entries : List (String × Tree)} {tree : Tree} {decode : Decoder α} {a : α} {f : Fields}

/-- The trees that the fields of a record are taken from. -/
def Fields.trees (f : Fields) : List Tree :=
  match f.source with
  | .members entries => entries.map (·.2)
  | .items trees => trees

theorem mem_of_mem_occurrences {e : Nat × Tree} (h : e ∈ Fields.occurrences name entries) :
    e.2 ∈ entries.map (·.2) := by
  have hstanding : e.2 ∈ standing name entries :=
    map_occurrences name entries ▸ List.mem_map_of_mem h
  obtain ⟨m, hm, heq⟩ := List.mem_map.1 hstanding
  exact heq ▸ List.mem_map_of_mem (List.mem_filter.1 hm).1

theorem field_eq_ok {missing : Option α} (h : f.field name decode missing = .ok a) :
    missing = some a ∨ ∃ tree ∈ f.trees, decode f.mode tree = .ok a := by
  obtain ⟨title, names, mode, source⟩ := f
  unfold Fields.field at h
  cases source with
  | members entries =>
    dsimp only at h
    split at h
    · exact Or.inl (congrArg some (Part.ok.inj h))
    · cases h
    · rename_i heq
      exact Or.inr ⟨_, mem_of_mem_occurrences (heq ▸ List.mem_singleton_self _),
        Part.placed_eq_ok.1 h⟩
    · split at h <;> cases h
  | items trees =>
    dsimp only at h
    split at h
    · rename_i heq
      exact Or.inr ⟨_, List.mem_of_getElem? heq, Part.placed_eq_ok.1 h⟩
    · exact Or.inl (congrArg some (Part.ok.inj h))
    · cases h

theorem required_eq_ok (h : f.required name decode = .ok a) :
    ∃ tree ∈ f.trees, decode f.mode tree = .ok a :=
  (field_eq_ok h).resolve_left (nomatch ·)

theorem withDefault_eq_ok {value : α} (h : f.withDefault name decode value = .ok a) :
    a = value ∨ ∃ tree ∈ f.trees, decode f.mode tree = .ok a :=
  (field_eq_ok h).imp_left fun hvalue => (Option.some.inj hvalue).symm

theorem optional_eq_ok {found : Option α} (h : f.optional name decode = .ok found) :
    ∀ a ∈ found, ∃ tree ∈ f.trees, tree ≠ .null ∧ decode f.mode tree = .ok a := by
  rintro a rfl
  rcases field_eq_ok h with hmissing | ⟨tree, htree, hread⟩
  · cases hmissing
  · refine ⟨tree, htree, ?_⟩
    unfold nullable at hread
    split at hread
    case h_1 => cases hread
    case h_2 hnull =>
      refine ⟨hnull, ?_⟩
      cases hdecode : decode f.mode tree with
      | error fault => rw [hdecode] at hread; cases hread
      | ok b => rw [hdecode] at hread; cases hread; rfl

theorem parts_of_result {parts : Part α} {rest : Part β} (h : (parts <* rest).result = .ok a) :
    parts = .ok a := by
  have hseq : Function.const β <$> parts <*> rest = .ok a := Part.result_eq_ok.1 h
  obtain ⟨g, b, hg, -, rfl⟩ := Part.seq_eq_ok.1 hseq
  obtain ⟨a, hparts, rfl⟩ := Part.map_eq_ok.1 hg
  exact hparts

theorem pair_of_result {p : Part α} {q : Part β} {x : α × β}
    (h : (Prod.mk <$> p <*> q).result = .ok x) : p = .ok x.1 ∧ q = .ok x.2 := by
  obtain ⟨g, b, hg, hq, rfl⟩ := Part.seq_eq_ok.1 (Part.result_eq_ok.1 h)
  obtain ⟨a, hp, rfl⟩ := Part.map_eq_ok.1 hg
  exact ⟨hp, hq⟩

theorem bind_eq_ok {ε : Type} {x : Except ε α} {g : α → Except ε β} {b : β}
    (h : x >>= g = .ok b) : ∃ a, x = .ok a ∧ g a = .ok b := by
  cases x with
  | error fault => cases h
  | ok a => exact ⟨a, rfl, h⟩

theorem fits_trees (h : ∀ e ∈ entries, e.2.Fits n) :
    ∀ t ∈ (Fields.ofObject title names mode entries).trees, t.Fits n := List.forall_mem_map.2 h

/-- The parts of a record come from the parts of its tree. -/
theorem labelled_eq_ok {parts : Fields → Part α} (hfits : tree.Fits n)
    (h : labelled title names parts mode tree = .ok a) :
    ∃ m f, n = m + 1 ∧ (∀ t ∈ f.trees, t.Fits m) ∧ parts f = .ok a := by
  unfold labelled at h
  split at h
  case h_1 entries =>
    obtain ⟨m, rfl, hmembers⟩ := hfits.of_object
    exact ⟨m, _, rfl, fits_trees hmembers, parts_of_result h⟩
  case h_2 =>
    unfold mismatch at h
    split at h <;> cases h

theorem record_eq_ok {parts : Fields → Part α} (hfits : tree.Fits n)
    (h : record title names parts mode tree = .ok a) :
    ∃ m f, n = m + 1 ∧ (∀ t ∈ f.trees, t.Fits m) ∧ parts f = .ok a := by
  unfold record at h
  split at h
  case h_1 trees =>
    obtain ⟨m, rfl, hitems⟩ := hfits.of_array
    exact ⟨m, ⟨title, names, mode, .items trees⟩, rfl, hitems, parts_of_result h⟩
  case h_2 => exact labelled_eq_ok hfits h

theorem keep_eq_ok {kept : List (String × Tree)}
    (h : (Fields.ofObject title names mode entries).keep = .ok kept) :
    ∀ e ∈ kept, e ∈ entries := by
  unfold Fields.keep Fields.ofObject at h
  dsimp only at h
  split at h
  · cases h
  · obtain rfl := Part.ok.inj h
    exact fun e he => (List.mem_filter.1 he).1

/-- A record that is read together with another type. -/
theorem flattened_eq_ok {parts : Fields → Part α}
    {others : List (String × Tree) → Except Fault β} {join : α → β → γ} {c : γ}
    (hfits : tree.Fits n) (h : flattened title names parts others join mode tree = .ok c) :
    ∃ m f a kept b, n = m + 1 ∧ (∀ t ∈ f.trees, t.Fits m) ∧ parts f = .ok a ∧
      (Tree.object kept).Fits n ∧ others kept = .ok b ∧ join a b = c := by
  unfold flattened at h
  split at h
  case h_2 =>
    unfold mismatch at h
    split at h <;> cases h
  case h_1 entries =>
    obtain ⟨m, rfl, hmembers⟩ := hfits.of_object
    obtain ⟨x, hx, hjoin⟩ := bind_eq_ok h
    obtain ⟨b, hothers, hb⟩ := bind_eq_ok hjoin
    obtain ⟨hparts, hkeep⟩ := pair_of_result hx
    exact ⟨m, _, x.1, x.2, b, rfl, fits_trees hmembers, hparts,
      .object fun e he => hmembers e (keep_eq_ok hkeep e he), hothers, Except.ok.inj hb⟩

theorem Tagged.alternative_eq_ok {t : Tagged α} (h : t.alternative mode tree = .ok decode) :
    ∃ alternative ∈ t.alternatives, alternative.2 = decode := by
  unfold Tagged.alternative at h
  split at h
  case h_1 name =>
    unfold named at h
    split at h
    · rename_i heq
      exact ⟨_, Assoc.mem_of_get? (Except.ok.inj h ▸ heq), rfl⟩
    · cases h
  case h_2 =>
    split at h
    · rename_i heq
      exact ⟨_, List.mem_of_getElem? heq, Except.ok.inj h⟩
    · cases h
  case h_3 =>
    unfold mismatch at h
    split at h <;> cases h

/-- The content of a type with alternatives comes from the members other than the tag, -/
theorem Tagged.members_eq_ok {t : Tagged α} (hfits : (Tree.object entries).Fits n)
    (h : t.members mode entries = .ok a) :
    ∃ m alternative content, n = m + 1 ∧ alternative ∈ t.alternatives ∧
      content.Fits (m + 1) ∧ alternative.2 .kept content = .ok a := by
  obtain ⟨m, rfl, hmembers⟩ := hfits.of_object
  obtain ⟨x, hx, hread⟩ := bind_eq_ok h
  obtain ⟨htag, hkeep⟩ := pair_of_result hx
  obtain ⟨tree, -, htree⟩ := required_eq_ok htag
  obtain ⟨alternative, hmem, halternative⟩ := alternative_eq_ok htree
  exact ⟨m, alternative, .object x.2, rfl, hmem,
    .object fun e he => hmembers e (keep_eq_ok hkeep e he), halternative ▸ hread⟩

/-- or from the items after it. -/
theorem Tagged.decode_eq_ok {t : Tagged α} (hfits : tree.Fits n)
    (h : t.decode mode tree = .ok a) :
    ∃ m alternative content, n = m + 1 ∧ alternative ∈ t.alternatives ∧
      content.Fits (m + 1) ∧ alternative.2 .kept content = .ok a := by
  unfold Tagged.decode at h
  split at h
  case h_1 => exact members_eq_ok hfits h
  case h_2 => cases h
  case h_4 =>
    unfold mismatch at h
    split at h <;> cases h
  case h_3 tag content =>
    obtain ⟨m, rfl, hitems⟩ := hfits.of_array
    obtain ⟨decode, htag, hread⟩ := bind_eq_ok h
    obtain ⟨alternative, hmem, rfl⟩ := alternative_eq_ok htag
    split at hread
    · exact ⟨m, alternative, .array content, rfl, hmem,
        .array fun item hitem => hitems item (List.mem_cons_of_mem _ hitem), hread⟩
    · cases hread

end Flowgraph.Decode
