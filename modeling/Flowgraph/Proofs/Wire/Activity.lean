import Flowgraph.Activity.Result
import Flowgraph.Activity.Schema
import Flowgraph.Proofs.Decode.Faithful

/-!
# Results and schemas are read back

What an activity reports and what it says about its parameters is read back from its written form,
except that data or a default value of `null` reads back as none at all (`Result.settled`,
`Parameter.settled`).
-/

set_option autoImplicit false

namespace Flowgraph.Activity

open Decode

/-! ### Fields of these records -/

section Fields

variable {title name key : String} {names : List String} {mode : Mode}
  {entries : List (String × Tree)} {f : Fields} {n : Nat}

/-- A value that may be left out, as it is read back: none if it is `null`. -/
def present (value : Option Json.Value) : Option Json.Value := value.filter (· ≠ .null)

theorem optional_value {value : Option Json.Value} (hordered : ∀ v ∈ value, v.Ordered)
    (h : standing name entries = (value.map Tree.ofValue).toList) :
    (Fields.ofObject title names mode entries).optional name Decode.value =
      .ok (present value) := by
  refine optional_written h (fun v hv => ?_) (fun hnone => by rw [hnone]; rfl)
  obtain rfl := hv
  cases v with
  | null => rfl
  | bool | number | string | array | object =>
    exact nullable_eq_ok (faithful_value.reads mode _ (hordered _ rfl)) (by simp [Tree.ofValue])

/-- A value that has been read is not `null`. -/
theorem value_ne_null {tree : Tree} {v : Json.Value} (hfits : tree.Fits n) (hnull : tree ≠ .null)
    (h : Decode.value mode tree = .ok v) : v ≠ .null := by
  rintro rfl
  unfold Decode.value at h
  split at h
  case h_2 => cases h
  case h_1 heq =>
    obtain rfl := Except.ok.inj h
    cases tree with
    | null => exact hnull rfl
    | infinite => exact hfits.2 (List.mem_singleton_self _)
    | array items => 
      obtain ⟨_, _, h⟩ := Option.map_eq_some_iff.1 heq
      cases h
    | object members =>
      obtain ⟨_, _, h⟩ := Option.map_eq_some_iff.1 heq
      cases h
    | _ => cases heq

theorem optional_value_found {found : Option Json.Value} (hfits : ∀ t ∈ f.trees, t.Fits n)
    (h : f.optional name Decode.value = .ok found) :
    (∀ v ∈ found, v.Ordered ∧ (Tree.ofValue v).depth ≤ n) ∧ present found = found := by
  have hfound : ∀ v ∈ found, v ≠ .null ∧ v.Ordered ∧ (Tree.ofValue v).depth ≤ n := by
    intro v hv
    obtain ⟨tree, htree, hnull, hdecode⟩ := optional_eq_ok h v hv
    obtain ⟨hordered, -, hdepth⟩ :=
      faithful_value.found _ tree n v (hfits tree htree) hdecode
    exact ⟨value_ne_null (hfits tree htree) hnull hdecode, hordered, by simpa using hdepth⟩
  refine ⟨fun v hv => (hfound v hv).2, ?_⟩
  cases found with
  | none => rfl
  | some v => exact Option.filter_some_pos (by simpa using (hfound v rfl).1)

/-- The flag that is written: one that is not set is left out. -/
theorem flag?_eq (value : Bool) :
    flag? key value = Tree.member? key Tree.bool (if value then some true else none) := by
  cases value <;> rfl

@[simp] theorem standing_flag? (value : Bool) : standing name (flag? key value) =
    if key = name then ((if value then some true else none).map Tree.bool).toList else [] := by
  rw [flag?_eq, standing_member?]

@[simp] theorem within_flag? (value : Bool) (h : key ∈ names) :
    Within names (flag? key value) := by
  rw [flag?_eq]
  exact within_member? h

@[simp] theorem each_flag? {p : Tree → Prop} (value : Bool) :
    Each p (flag? key value) ↔ (value = true → p (.bool true)) := by
  cases value <;> simp [flag?]

theorem read_flag {value : Bool} (h : standing name entries =
      ((if value then some true else none).map Tree.bool).toList) :
    (Fields.ofObject title names mode entries).withDefault name bool false = .ok value := by
  refine withDefault_written h (fun b _ => faithful_bool.reads mode b trivial) ?_
  cases value <;> rfl

end Fields

/-! ### Results -/

namespace Result

/-- The members of objects in the data of a proper result are in order. -/
def Proper (r : Result) : Prop := ∀ v ∈ r.data, v.Ordered

/-- A result as it is read back. -/
def settled (r : Result) : Result := { r with data := present r.data }

theorem faithful : Faithful encode decode Proper settled 1 where
  valued r := valued_of_each (by simp [Tree.valued_ofValue])
  reads mode r h := by
    obtain ⟨success, data, error⟩ := r
    refine record_object (Part.seq_written (Part.seq_written (Part.map_written ?_) ?_) ?_) ?_
    · exact required_written (.bool success) (by simp) rfl
    · exact optional_value h (by simp)
    · exact optional_text (by simp)
    · simp
  found mode tree n r hfits h := by
    obtain ⟨m, f, rfl, hf, hparts⟩ := record_eq_ok hfits h
    simp only [Part.seq_eq_ok, Part.map_eq_ok] at hparts
    obtain ⟨_, error, ⟨_, data, ⟨success, -, rfl⟩, hdata, rfl⟩, -, rfl⟩ := hparts
    obtain ⟨hproper, hpresent⟩ := optional_value_found hf hdata
    refine ⟨fun v hv => (hproper v hv).1, by simp [settled, hpresent], depth_of_each ?_⟩
    simpa using fun v hv => (hproper v hv).2

end Result

/-! ### Kinds of parameters -/

theorem Entry.faithful : Faithful Entry.encode Entry.decode (fun _ => True) id 1 where
  valued e := by
    cases e with
    | plain value => exact Tree.valued_string value
    | labelled value label => exact valued_of_each (by simp)
  reads mode e _ := by
    cases e with
    | plain value => rfl
    | labelled value label =>
      have hread : Decode.labelled "EnumOption" ["value", "label"] (fun f =>
          Entry.labelled <$> f.required "value" text <*> f.required "label" text) .kept
          (.object [("value", .string value), ("label", .string label)]) =
            .ok (.labelled value label) := by
        refine labelled_object (Part.seq_written (Part.map_written ?_) ?_) (by simp)
        · exact required_written (.string value) (by simp) rfl
        · exact required_written (.string label) (by simp) rfl
      unfold Entry.decode Entry.encode
      simp only [hread]
      rfl
  found mode tree n e hfits h := by
    refine ⟨trivial, rfl, ?_⟩
    cases e with
    | plain value => exact Nat.zero_le _
    | labelled value label => exact Nat.le_max_right ..

namespace Kind

/-- The written fields of a kind without its tag. -/
def content : Kind → List (String × Tree)
  | .string placeholder multiline =>
    Tree.text? "placeholder" placeholder ++ flag? "multiline" multiline
  | .number min max step =>
    Tree.member? "min" float min ++ Tree.member? "max" float max ++ Tree.member? "step" float step
  | .boolean | .object => []
  | .enumeration options => [("options", .array (options.map Entry.encode))]

theorem encode_eq (k : Kind) : k.encode = ("type", .string k.name) :: k.content := by
  cases k <;> rfl

/-- The names of the written fields of kinds without their tag. -/
def contentNames : List String := ["placeholder", "multiline", "min", "max", "step", "options"]

theorem within_content (k : Kind) : Within contentNames k.content := by
  cases k <;> simp [content, contentNames]

theorem within_encode (k : Kind) : Within ("type" :: contentNames) k.encode := by
  rw [encode_eq]
  exact within_cons.2 ⟨List.mem_cons_self .., fun e he =>
    List.mem_cons_of_mem _ (k.within_content e he)⟩

theorem valued_content (k : Kind) : Each Tree.Valued k.content := by
  cases k <;> simp [content, float, Entry.faithful.valued]

theorem valued (k : Kind) : Each Tree.Valued k.encode :=
  k.encode_eq ▸ each_cons.2 ⟨Tree.valued_string _, k.valued_content⟩

theorem optional_float {title name : String} {names : List String} {mode : Mode}
    {entries : List (String × Tree)} {value : Option Binary64}
    (h : standing name entries = (value.map float).toList) :
    (Fields.ofObject title names mode entries).optional name Decode.float = .ok value :=
  (faithful_float.optional_written h (fun _ _ => trivial) (fun _ _ => nofun)).trans
    (congrArg _ (Option.map_id_apply ..))

/-- A kind is read back from its members, -/
theorem members_encode (k : Kind) (mode : Mode) : tagged.members mode k.encode = .ok k := by
  have hapart : Apart [tagged.tag] k.content := k.within_content.apart (by decide)
  rw [encode_eq]
  cases k with
  | string placeholder multiline =>
    refine Tagged.members_object (t := tagged) _ rfl hapart (valued_content _) ?_
    refine record_object (Part.seq_written (Part.map_written ?_) ?_) ?_
    · exact optional_text (by simp [content])
    · exact read_flag (by simp [content])
    · simp [content]
  | number min max step =>
    refine Tagged.members_object (t := tagged) _ rfl hapart (valued_content _) ?_
    refine record_object (Part.seq_written (Part.seq_written (Part.map_written ?_) ?_) ?_) ?_
    · exact optional_float (by simp [content])
    · exact optional_float (by simp [content])
    · exact optional_float (by simp [content])
    · simp [content]
  | boolean => exact Tagged.members_object (t := tagged) _ rfl hapart (valued_content _) rfl
  | enumeration options =>
    refine Tagged.members_object (t := tagged) _ rfl hapart (valued_content _) ?_
    refine record_object (Part.map_written ?_) ?_
    · exact withDefault_always (.array (options.map Entry.encode)) (by simp [content])
        ((Entry.faithful.list.reads .kept options fun _ _ => trivial).trans
          (congrArg _ (List.map_id options)))
    · simp [content]
  | object => exact Tagged.members_object (t := tagged) _ rfl hapart (valued_content _) rfl

/-- and is nested no deeper than its options. -/
theorem depth_encode (k : Kind) : Each (·.depth ≤ 2) k.encode := by
  suffices hcontent : Each (·.depth ≤ 2) k.content from
    k.encode_eq ▸ each_cons.2 ⟨Nat.zero_le _, hcontent⟩
  cases k with
  | string placeholder multiline => simp [content]
  | number min max step => simp [content, float]
  | boolean | object => exact each_nil
  | enumeration options =>
    have hentry (e : Entry) : e.encode.depth ≤ 1 := by
      cases e with
      | plain value => exact Nat.zero_le _
      | labelled value label => exact Nat.le_refl 1
    exact each_cons.2 ⟨Nat.succ_le_succ (Tree.depthItems_le.2
      (List.forall_mem_map.2 fun e _ => hentry e)), each_nil⟩

end Kind

/-! ### Parameters and schemas -/

namespace Parameter

/-- The members of objects in the default value of a proper parameter are in order. -/
def Proper (p : Parameter) : Prop := ∀ v ∈ p.default, v.Ordered

/-- A parameter as it is read back. -/
def settled (p : Parameter) : Parameter := { p with default := present p.default }

theorem faithful : Faithful encode decode Proper settled 3 where
  valued p := valued_of_each (by simp [Kind.valued, Tree.valued_ofValue])
  reads mode p h := by
    obtain ⟨name, label, kind, required, default, help⟩ := p
    let own : List String := ["name", "label", "required", "default", "helpText"]
    have hapart : Apart own kind.encode := kind.within_encode.apart (by decide)
    have hnone (field : String) (hfield : field ∈ own) : standing field kind.encode = [] :=
      hapart.standing_eq_nil hfield
    have hkept : ([("name", Tree.string name), ("label", Tree.string label)] ++ kind.encode ++
        (flag? "required" required ++ Tree.member? "default" .ofValue default ++
          Tree.text? "helpText" help)).filter (fun e => !own.contains e.1) = kind.encode :=
      filter_around (by simp [own]) hapart (by simp [own])
    apply flattened_object (b := kind)
      (a := fun kind : Kind => (⟨name, label, kind, required, present default, help⟩ : Parameter))
    · refine Part.seq_written (Part.seq_written (Part.seq_written (Part.seq_written
        (Part.map_written ?_) ?_) ?_) ?_) ?_
      · exact required_written (.string name) (by simp [hnone, own]) rfl
      · exact required_written (.string label) (by simp [hnone, own]) rfl
      · exact read_flag (by simp [hnone, own])
      · exact optional_value h (by simp [hnone, own])
      · exact optional_text (by simp [hnone, own])
    · simp [Kind.valued, Tree.valued_ofValue]
    · simp only [List.cons_append, List.nil_append, List.append_assoc] at hkept ⊢
      rw [hkept]
      exact kind.members_encode .kept
  found mode tree n p hfits h := by
    obtain ⟨m, f, own, kept, kind, rfl, hf, hparts, hkept, hkind, rfl⟩ := flattened_eq_ok hfits h
    simp only [Part.seq_eq_ok, Part.map_eq_ok] at hparts
    obtain ⟨_, help, ⟨_, default, ⟨_, required, ⟨_, label, ⟨name, -, rfl⟩, -, rfl⟩, -, rfl⟩,
      hdefault, rfl⟩, -, rfl⟩ := hparts
    obtain ⟨hproper, hpresent⟩ := optional_value_found hf hdefault
    refine ⟨fun v hv => (hproper v hv).1, by simp [settled, hpresent], depth_of_each ?_⟩
    have hkind : Each (·.depth ≤ max m 2) kind.encode := fun e he =>
      Nat.le_trans (kind.depth_encode e he) (Nat.le_max_right ..)
    have hvalue : ∀ v ∈ default, (Tree.ofValue v).depth ≤ max m 2 := fun v hv =>
      Nat.le_trans (hproper v hv).2 (Nat.le_max_left ..)
    simp only [each_cons, each_append, each_text?, each_member?, each_flag?, Tree.depth_string,
      Tree.depth_bool, Nat.zero_le, implies_true, and_true, true_and, hkind]
    exact hvalue

end Parameter

namespace Schema

/-- The parameters of a proper schema are proper. -/
def Proper (s : Schema) : Prop := ∀ p ∈ s.parameters, p.Proper

/-- A schema as it is read back. -/
def settled (s : Schema) : Schema := { s with parameters := s.parameters.map Parameter.settled }

theorem faithful : Faithful encode decode Proper settled 5 where
  valued s := valued_of_each (by simp [Parameter.faithful.valued])
  reads mode s h := by
    obtain ⟨name, label, description, category, parameters⟩ := s
    refine record_object (Part.seq_written (Part.seq_written (Part.seq_written (Part.seq_written
      (Part.map_written ?_) ?_) ?_) ?_) ?_) ?_
    · exact required_written (.string name) (by simp) rfl
    · exact required_written (.string label) (by simp) rfl
    · exact optional_text (by simp)
    · exact optional_text (by simp)
    · exact withDefault_always (.array (parameters.map Parameter.encode)) (by simp)
        (Parameter.faithful.list.reads mode parameters h)
    · simp
  found mode tree n s hfits h := by
    obtain ⟨m, f, rfl, hf, hparts⟩ := record_eq_ok hfits h
    simp only [Part.seq_eq_ok, Part.map_eq_ok] at hparts
    obtain ⟨_, parameters, ⟨_, category, ⟨_, description, ⟨_, label, ⟨name, -, rfl⟩, -, rfl⟩, -,
      rfl⟩, -, rfl⟩, hparameters, rfl⟩ := hparts
    obtain ⟨hproper, hsettled, hdepth⟩ := Parameter.faithful.list.withDefault hf hparameters
      ⟨List.forall_mem_nil _, rfl, Nat.le_trans (by decide : 1 ≤ 4) (Nat.le_max_right ..)⟩
    exact ⟨hproper, by simp [settled, hsettled], depth_of_each (by
      simp only [each_cons, each_append, each_text?, each_nil, Tree.depth_string, Nat.zero_le,
        implies_true, and_self, hdepth])⟩

end Schema

end Flowgraph.Activity
