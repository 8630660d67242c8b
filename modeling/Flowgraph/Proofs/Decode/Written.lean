import Flowgraph.Decode.Variant
import Flowgraph.Proofs.Tree.Leaves

/-!
# Reading back what has been written

A record is written as an object whose members are its fields, some of them left out. To read such
an object it is enough to know which trees stand at each name (`standing`): one tree at the name of
a field that is there, none at the name of one that is left out. `record_object`,
`flattened_object` and `Tagged.members_object` say what is read from the object as a whole.
-/

set_option autoImplicit false

namespace Flowgraph.Decode

variable {α β γ : Type}

/-! ### Parts -/

namespace Part

@[simp] theorem map_ok (f : α → β) (a : α) : f <$> Part.ok a = .ok (f a) := rfl

@[simp] theorem seq_ok (f : α → β) (a : α) : Part.ok f <*> Part.ok a = .ok (f a) := rfl

@[simp] theorem seqLeft_ok (a : α) (b : β) : Part.ok a <* Part.ok b = .ok a := rfl

@[simp] theorem result_ok (a : α) : (Part.ok a).result = .ok a := rfl

theorem map_written {f : α → β} {p : Part α} {a : α} (h : p = .ok a) : f <$> p = .ok (f a) := by
  rw [h, map_ok]

theorem seq_written {p : Part (α → β)} {q : Part α} {f : α → β} {a : α} (hp : p = .ok f)
    (hq : q = .ok a) : p <*> q = .ok (f a) := by
  rw [hp, hq, seq_ok]

theorem map_eq_ok {f : α → β} {p : Part α} {b : β} :
    f <$> p = .ok b ↔ ∃ a, p = .ok a ∧ f a = b := by
  cases p with
  | ok a => simp
  | wrong place fault => exact ⟨fun h => (nomatch h), fun ⟨_, h, _⟩ => (nomatch h)⟩

theorem seq_eq_ok {p : Part (α → β)} {q : Part α} {b : β} :
    p <*> q = .ok b ↔ ∃ f a, p = .ok f ∧ q = .ok a ∧ f a = b := by
  cases p with
  | wrong place fault =>
    refine ⟨fun h => ?_, fun ⟨_, _, h, _⟩ => (nomatch h)⟩
    cases q <;> simp only [Seq.seq, apply] at h
    · cases h
    · split at h <;> cases h
  | ok f =>
    cases q with
    | ok a => simp
    | wrong place fault => exact ⟨fun h => (nomatch h), fun ⟨_, _, _, h, _⟩ => nomatch h⟩

theorem result_eq_ok {p : Part α} {a : α} : p.result = .ok a ↔ p = .ok a := by
  cases p <;> simp [result]

theorem placed_eq_ok {place : Nat} {r : Except Fault α} {a : α} :
    placed place r = .ok a ↔ r = .ok a := by
  cases r <;> simp [placed]

end Part

/-! ### Members by name -/

variable {name key title : String} {names : List String} {mode : Mode}
  {entries more : List (String × Tree)} {tree : Tree} {decode : Decoder α} {a : α}

/-- The trees that stand at a name among some members. -/
def standing (name : String) (entries : List (String × Tree)) : List Tree :=
  (entries.filter (·.1 = name)).map (·.2)

@[simp] theorem standing_nil : standing name [] = [] := rfl

@[simp] theorem standing_cons : standing name ((key, tree) :: entries) =
    if key = name then tree :: standing name entries else standing name entries := by
  by_cases h : key = name <;> simp [standing, h]

@[simp] theorem standing_append :
    standing name (entries ++ more) = standing name entries ++ standing name more := by
  simp [standing]

@[simp] theorem standing_member? (encode : α → Tree) (value : Option α) :
    standing name (Tree.member? key encode value) =
      if key = name then (value.map encode).toList else [] := by
  cases value <;> simp [Tree.member?]

@[simp] theorem standing_text? (value : Option String) :
    standing name (Tree.text? key value) =
      if key = name then (value.map Tree.string).toList else [] := standing_member? ..

theorem map_occurrences (name : String) (entries : List (String × Tree)) :
    (Fields.occurrences name entries).map (·.2) = standing name entries := by
  unfold Fields.occurrences
  generalize 0 = first
  induction entries generalizing first with
  | nil => rfl
  | cons e entries ih =>
    obtain ⟨key, tree⟩ := e
    by_cases h : key = name <;> simp [List.zipIdx_cons, h, ih]

theorem occurrences_eq_nil (h : standing name entries = []) :
    Fields.occurrences name entries = [] :=
  List.map_eq_nil_iff.1 ((map_occurrences name entries).trans h)

theorem occurrences_eq_singleton (h : standing name entries = [tree]) :
    ∃ place, Fields.occurrences name entries = [(place, tree)] := by
  obtain ⟨e, he, rfl⟩ := List.map_eq_singleton_iff.1 ((map_occurrences name entries).trans h)
  exact ⟨e.1, he⟩

/-- Whether the trees of all members have a property. -/
def Each (p : Tree → Prop) (entries : List (String × Tree)) : Prop := ∀ e ∈ entries, p e.2

section Each

variable {p : Tree → Prop}

@[simp] theorem each_nil : Each p [] := List.forall_mem_nil _

@[simp] theorem each_cons : Each p ((key, tree) :: entries) ↔ p tree ∧ Each p entries :=
  List.forall_mem_cons

@[simp] theorem each_append : Each p (entries ++ more) ↔ Each p entries ∧ Each p more :=
  List.forall_mem_append

@[simp] theorem each_member? {encode : α → Tree} {value : Option α} :
    Each p (Tree.member? key encode value) ↔ ∀ a ∈ value, p (encode a) := by
  cases value <;> simp [Tree.member?]

@[simp] theorem each_text? {value : Option String} :
    Each p (Tree.text? key value) ↔ ∀ s ∈ value, p (.string s) := each_member?

end Each

theorem valued_of_each (h : Each Tree.Valued entries) : (Tree.object entries).Valued :=
  Tree.valued_object.2 h

/-- An object is one level deeper than its members. -/
theorem depth_of_each {m floor : Nat} (h : Each (·.depth ≤ max m floor) entries) :
    (Tree.object entries).depth ≤ max (m + 1) (floor + 1) := by
  rw [Nat.add_max_add_right]
  exact Nat.succ_le_succ (Tree.depthMembers_le.2 h)

theorem each_of_depth {m floor : Nat}
    (h : (Tree.object entries).depth ≤ max (m + 1) (floor + 1)) :
    Each (·.depth ≤ max m floor) entries := by
  rw [Nat.add_max_add_right] at h
  exact Tree.depthMembers_le.1 (Nat.le_of_succ_le_succ h)

/-! ### Fields that have been written -/

/-- The fields found in an object. -/
def Fields.ofObject (title : String) (names : List String) (mode : Mode)
    (entries : List (String × Tree)) : Fields := ⟨title, names, mode, .members entries⟩

theorem field_written {missing : Option α} (tree : Tree) (h : standing name entries = [tree])
    (hread : decode mode tree = .ok a) :
    (Fields.ofObject title names mode entries).field name decode missing = .ok a := by
  obtain ⟨place, hplace⟩ := occurrences_eq_singleton h
  unfold Fields.field Fields.ofObject
  cases missing <;> simp [hplace, hread, Part.placed]

theorem required_written (tree : Tree) (h : standing name entries = [tree])
    (hread : decode mode tree = .ok a) :
    (Fields.ofObject title names mode entries).required name decode = .ok a :=
  field_written tree h hread

theorem withDefault_always {value : α} (tree : Tree) (h : standing name entries = [tree])
    (hread : decode mode tree = .ok a) :
    (Fields.ofObject title names mode entries).withDefault name decode value = .ok a :=
  field_written tree h hread

theorem field_absent (h : standing name entries = []) :
    (Fields.ofObject title names mode entries).field name decode (some a) = .ok a := by
  unfold Fields.field Fields.ofObject
  dsimp only
  rw [occurrences_eq_nil h]

/-- A field that is written, or left out because it has the value it has when it is missing. -/
theorem withDefault_written {value : α} {encode : α → Tree} {left : Option α}
    (h : standing name entries = (left.map encode).toList)
    (hread : ∀ b ∈ left, decode mode (encode b) = .ok b) (hmissing : left.getD value = a) :
    (Fields.ofObject title names mode entries).withDefault name decode value = .ok a := by
  subst hmissing
  cases left with
  | none => exact field_absent h
  | some b => exact field_written (encode b) h (hread b rfl)

theorem nullable_eq_ok (hread : decode mode tree = .ok a) (hnull : tree ≠ .null) :
    nullable decode mode tree = .ok (some a) := by
  unfold nullable
  split
  · exact absurd rfl hnull
  · rw [hread]
    rfl

/-- A field that is written if it has a value. -/
theorem optional_written {encode : α → Tree} {value found : Option α}
    (h : standing name entries = (value.map encode).toList)
    (hread : ∀ b ∈ value, nullable decode mode (encode b) = .ok found)
    (habsent : value = none → found = none) :
    (Fields.ofObject title names mode entries).optional name decode = .ok found := by
  cases value with
  | none => exact habsent rfl ▸ field_absent h
  | some b => exact field_written (encode b) h (hread b rfl)

theorem optional_text {value : Option String}
    (h : standing name entries = (value.map Tree.string).toList) :
    (Fields.ofObject title names mode entries).optional name text = .ok value := by
  refine optional_written h (fun s hs => ?_) (fun h => h)
  rw [hs]
  rfl

/-! ### Members that are no field -/

/-- Whether the names of all members are among some names. -/
def Within (names : List String) (entries : List (String × Tree)) : Prop :=
  ∀ e ∈ entries, e.1 ∈ names

/-- Whether the names of all members are apart from some names. -/
def Apart (names : List String) (entries : List (String × Tree)) : Prop :=
  ∀ e ∈ entries, e.1 ∉ names

@[simp] theorem within_nil : Within names [] := List.forall_mem_nil _

@[simp] theorem within_cons : Within names ((key, tree) :: entries) ↔
    key ∈ names ∧ Within names entries := List.forall_mem_cons

@[simp] theorem within_append :
    Within names (entries ++ more) ↔ Within names entries ∧ Within names more :=
  List.forall_mem_append

@[simp] theorem within_member? {encode : α → Tree} {value : Option α} (h : key ∈ names) :
    Within names (Tree.member? key encode value) := by
  cases value <;> simp [Tree.member?, h]

@[simp] theorem within_text? {value : Option String} (h : key ∈ names) :
    Within names (Tree.text? key value) := within_member? h

theorem Within.apart {others : List String} (h : Within others entries)
    (hapart : ∀ name ∈ others, name ∉ names) : Apart names entries :=
  fun e he => hapart e.1 (h e he)

theorem filter_of_within (h : Within names entries) :
    entries.filter (fun e => !names.contains e.1) = [] := by
  rw [List.filter_eq_nil_iff]
  intro e he
  simp [h e he]

theorem filter_of_apart (h : Apart names entries) :
    entries.filter (fun e => !names.contains e.1) = entries := by
  rw [List.filter_eq_self]
  intro e he
  simpa using h e he

theorem standing_of_apart (h : Apart [name] entries) : standing name entries = [] := by
  unfold standing
  rw [List.filter_eq_nil_iff.2]
  · rfl
  · intro e he
    simpa using h e he

theorem Apart.standing_eq_nil (h : Apart names entries) (hname : name ∈ names) :
    standing name entries = [] :=
  standing_of_apart fun e he hmem => h e he (List.mem_singleton.1 hmem ▸ hname)

/-- The members of another type among those of a record. -/
theorem filter_around {before between after : List (String × Tree)} (hbefore : Within names before)
    (hbetween : Apart names between) (hafter : Within names after) :
    (before ++ between ++ after).filter (fun e => !names.contains e.1) = between := by
  rw [List.filter_append, List.filter_append, filter_of_within hbefore, filter_of_apart hbetween,
    filter_of_within hafter, List.nil_append, List.append_nil]

theorem rest_of_within (h : Within names entries) :
    (Fields.ofObject title names mode entries).rest = .ok () := by
  unfold Fields.rest Fields.ofObject
  dsimp only
  rw [List.find?_eq_none.2]
  intro e he
  have hentry := h e.1 (List.fst_mem_of_mem_zipIdx he)
  simp [hentry]

theorem keep_ofObject (h : Each Tree.Valued entries) :
    (Fields.ofObject title names mode entries).keep =
      .ok (entries.filter fun e => !names.contains e.1) := by
  unfold Fields.keep Fields.ofObject
  dsimp only
  rw [List.find?_eq_none.2]
  intro e he
  have hentry := (h e.1 (List.fst_mem_of_mem_zipIdx he)).readable
  simp [hentry]

/-! ### Whole objects -/

/-- A record is read from the object of its fields. -/
theorem labelled_object {parts : Fields → Part α}
    (hparts : parts (Fields.ofObject title names mode entries) = .ok a)
    (hnames : Within names entries) :
    labelled title names parts mode (.object entries) = .ok a := by
  have hrest : (Fields.ofObject title names mode entries).rest = .ok () := rest_of_within hnames
  unfold Fields.ofObject at hparts hrest
  unfold labelled
  dsimp only
  rw [hparts, hrest]
  rfl

theorem record_object {parts : Fields → Part α}
    (hparts : parts (Fields.ofObject title names mode entries) = .ok a)
    (hnames : Within names entries) :
    record title names parts mode (.object entries) = .ok a := labelled_object hparts hnames

/-- A record that is written together with another type is read from the object of both. -/
theorem flattened_object {parts : Fields → Part α}
    {others : List (String × Tree) → Except Fault β} {join : α → β → γ} {b : β}
    (hparts : parts (Fields.ofObject title names mode entries) = .ok a)
    (hvalued : Each Tree.Valued entries)
    (hothers : others (entries.filter fun e => !names.contains e.1) = .ok b) :
    flattened title names parts others join mode (.object entries) = .ok (join a b) := by
  have hkeep : (Fields.ofObject title names mode entries).keep =
      .ok (entries.filter fun e => !names.contains e.1) := keep_ofObject hvalued
  unfold Fields.ofObject at hparts hkeep
  unfold flattened
  dsimp only
  rw [hparts, hkeep]
  simp only [Part.map_ok, Part.seq_ok, Part.result_ok, bind, Except.bind, hothers, pure,
    Except.pure]

/-- The content of an alternative is read by the decoder that its tag names. -/
theorem Tagged.members_object {t : Tagged α} (content : List (String × Tree))
    (halternative : Assoc.get? name t.alternatives = some decode)
    (hapart : Apart [t.tag] content) (hvalued : Each Tree.Valued content)
    (hread : decode .kept (.object content) = .ok a) :
    t.members mode ((t.tag, .string name) :: content) = .ok a := by
  have htag : (Fields.ofObject t.title [t.tag] mode ((t.tag, .string name) :: content)).required
      t.tag t.alternative = .ok decode := by
    refine required_written (.string name) ?_ ?_
    · rw [standing_cons, if_pos rfl, standing_of_apart hapart]
    · simp [Tagged.alternative, named, halternative]
  have hkeep : (Fields.ofObject t.title [t.tag] mode ((t.tag, .string name) :: content)).keep =
      .ok content := by
    rw [keep_ofObject (each_cons.2 ⟨Tree.valued_string name, hvalued⟩),
      List.filter_cons_of_neg (by simp), filter_of_apart hapart]
  unfold Fields.ofObject at htag hkeep
  unfold Tagged.members
  dsimp only
  rw [htag, hkeep]
  exact hread

end Flowgraph.Decode
