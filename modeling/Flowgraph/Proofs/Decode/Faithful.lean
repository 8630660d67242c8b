import Flowgraph.Definition.Wire
import Flowgraph.Proofs.Decode.Found
import Flowgraph.Proofs.Json.ReadBack
import Flowgraph.Proofs.Tree.Value

/-!
# Written forms that lose nothing

A type is written by an encoder and read by a decoder. `Faithful` says of the two that what is
written is read back, as it is or *settled* where the written form has no way to say the same, and
that what is read is settled and is not written deeper than it was read. Then the text of a value
is read as the value (`Faithful.ofJson_compact`), and the text of a value that has been read from
another text is read as the same value (`Faithful.ofJson_again`).
-/

set_option autoImplicit false

namespace Flowgraph.Decode

variable {α : Type}

/-- What a written form has to satisfy so that it loses nothing of the proper values of a type. -/
structure Faithful (encode : α → Tree) (decode : Decoder α) (Proper : α → Prop) (settle : α → α)
    (floor : Nat) : Prop where
  valued : ∀ a, (encode a).Valued
  reads : ∀ mode a, Proper a → decode mode (encode a) = .ok (settle a)
  /-- Nothing is written deeper than it was read, or than `floor` levels. -/
  found : ∀ mode tree n a, tree.Fits n → decode mode tree = .ok a →
    Proper a ∧ settle a = a ∧ (encode a).depth ≤ max n floor

namespace Faithful

variable {encode : α → Tree} {decode : Decoder α} {Proper : α → Prop} {settle : α → α}
  {floor : Nat} {a : α}

/-- The text of a proper value is read as the value, settled. -/
theorem ofJson_compact (h : Faithful encode decode Proper settle floor) (hproper : Proper a)
    (hdepth : (encode a).depth ≤ Json.Reader.depthLimit)
    (hfloats : ∀ x, Tree.number (.float x) ∈ (encode a).leaves → x.ReadsBack) :
    ofJson decode (Json.compact (encode a)) = .ok (settle a) := by
  unfold ofJson
  rw [Json.read_compact (h.valued a) hfloats hdepth]
  simp only [bind, Except.bind, h.reads .direct a hproper]
  rfl

theorem decode_of_ofJson {text : String} (hread : ofJson decode text = .ok a) :
    decode .direct (Json.read text).tree = .ok a := by
  obtain ⟨b, hb, hended⟩ := bind_eq_ok hread
  split at hended
  · exact hb.trans hended
  · cases hended

/-- A value that has been read from a text is read from its own text. -/
theorem ofJson_again (h : Faithful encode decode Proper settle floor)
    (hfloor : floor ≤ Json.Reader.depthLimit) {text : String} (hread : ofJson decode text = .ok a)
    (hfloats : ∀ x, Tree.number (.float x) ∈ (encode a).leaves → x.ReadsBack) :
    ofJson decode (Json.compact (encode a)) = .ok a := by
  obtain ⟨hproper, hsettled, hdepth⟩ :=
    h.found .direct _ _ a (Json.fits_read text) (decode_of_ofJson hread)
  rw [h.ofJson_compact hproper (by omega) hfloats, hsettled]

end Faithful

/-! ### Types without fields -/

theorem faithful_text : Faithful Tree.string text (fun _ => True) id 0 where
  valued := Tree.valued_string
  reads _ _ _ := rfl
  found _ _ _ _ _ _ := ⟨trivial, rfl, Nat.zero_le _⟩

theorem faithful_bool : Faithful Tree.bool bool (fun _ => True) id 0 where
  valued := Tree.valued_bool
  reads _ _ _ := rfl
  found _ _ _ _ _ _ := ⟨trivial, rfl, Nat.zero_le _⟩

theorem faithful_float : Faithful (fun x => .number (.float x)) float (fun _ => True) id 0 where
  valued _ := Tree.valued_number _
  reads _ _ _ := rfl
  found _ _ _ _ _ _ := ⟨trivial, rfl, Nat.zero_le _⟩

/-- One of several names, if each name is listed once. -/
theorem faithful_choice {names : List (String × α)} {name : α → String}
    (h : ∀ a, Assoc.get? (name a) names = some a) :
    Faithful (fun a => .string (name a)) (choice names) (fun _ => True) id 0 where
  valued _ := Tree.valued_string _
  reads mode a _ := by
    have hnamed : named names (name a) = .ok a := by simp [named, h a]
    cases mode <;> exact hnamed
  found _ _ _ _ _ _ := ⟨trivial, rfl, Nat.zero_le _⟩

theorem faithful_value : Faithful Tree.ofValue value Json.Value.Ordered id 0 where
  valued := Tree.valued_ofValue
  reads mode v h := by simp [value, Tree.value?_ofValue v h]
  found mode tree n v hfits h := by
    unfold value at h
    split at h
    · rename_i heq
      obtain rfl := Except.ok.inj h
      have hread := (Tree.read_of_value? tree heq).mono hfits.1
      exact ⟨hread.1, rfl, Nat.le_trans hread.2 (Nat.le_max_left ..)⟩
    · cases h

theorem items_map {decode : Decoder α} {encode : α → Tree} {settle : α → α} {mode : Mode}
    {as : List α} (h : ∀ a ∈ as, decode mode (encode a) = .ok (settle a)) :
    items decode mode (as.map encode) = .ok (as.map settle) := by
  induction as with
  | nil => rfl
  | cons a as ih =>
    obtain ⟨ha, has⟩ := List.forall_mem_cons.1 h
    rw [List.map_cons, items, ha, ih has]
    rfl

theorem items_eq_ok {decode : Decoder α} {mode : Mode} {trees : List Tree} {as : List α}
    (h : items decode mode trees = .ok as) :
    ∀ a ∈ as, ∃ tree ∈ trees, decode mode tree = .ok a := by
  induction trees generalizing as with
  | nil => obtain rfl := Except.ok.inj h; exact List.forall_mem_nil _
  | cons tree trees ih =>
    obtain ⟨a, ha, hrest⟩ := bind_eq_ok h
    obtain ⟨more, hmore, hcons⟩ := bind_eq_ok hrest
    obtain rfl := Except.ok.inj hcons
    refine List.forall_mem_cons.2 ⟨⟨tree, List.mem_cons_self .., ha⟩, fun b hb => ?_⟩
    obtain ⟨other, hother, hread⟩ := ih hmore b hb
    exact ⟨other, List.mem_cons_of_mem _ hother, hread⟩

/-- A list of values. -/
theorem Faithful.list {encode : α → Tree} {decode : Decoder α} {Proper : α → Prop}
    {settle : α → α} {floor : Nat} (h : Faithful encode decode Proper settle floor) :
    Faithful (fun as => .array (as.map encode)) (list decode) (fun as => ∀ a ∈ as, Proper a)
      (fun as => as.map settle) (floor + 1) where
  valued as := Tree.valued_array.2 (List.forall_mem_map.2 fun a _ => h.valued a)
  reads mode as hproper := items_map fun a ha => h.reads mode a (hproper a ha)
  found mode tree n as hfits hread := by
    unfold Decode.list at hread
    split at hread
    case h_2 =>
      unfold mismatch at hread
      split at hread <;> cases hread
    case h_1 trees =>
      obtain ⟨m, rfl, hitems⟩ := hfits.of_array
      have hfound : ∀ a ∈ as, Proper a ∧ settle a = a ∧ (encode a).depth ≤ max m floor := by
        intro a ha
        obtain ⟨tree, htree, hdecode⟩ := items_eq_ok hread a ha
        exact h.found mode tree m a (hitems tree htree) hdecode
      refine ⟨fun a ha => (hfound a ha).1, ?_, ?_⟩
      · exact (List.map_congr_left fun a ha => (hfound a ha).2.1).trans (List.map_id _)
      · rw [Tree.depth, Nat.add_max_add_right]
        exact Nat.succ_le_succ (Tree.depthItems_le.2
          (List.forall_mem_map.2 fun a ha => (hfound a ha).2.2))

/-- A list of texts. -/
theorem faithful_texts : Faithful Tree.texts (Decode.list text) (fun _ => True) id 1 where
  valued texts := faithful_text.list.valued texts
  reads mode texts _ :=
    (faithful_text.list.reads mode texts fun _ _ => trivial).trans
      (congrArg Except.ok (List.map_id texts))
  found mode tree n texts hfits h :=
    ⟨trivial, rfl, (faithful_text.list.found mode tree n texts hfits h).2.2⟩

/-! ### Named values -/

theorem members_eq_ok {mode : Mode} {tree : Tree} {n : Nat} {ms : List (String × Json.Value)}
    (hfits : tree.Fits n) (h : members mode tree = .ok ms) :
    ∃ m, n = m + 1 ∧ ∀ e ∈ ms, Tree.Read m e.2 := by
  unfold members at h
  split at h
  case h_2 =>
    unfold mismatch at h
    split at h <;> cases h
  case h_1 trees =>
    split at h
    case h_2 => cases h
    case h_1 heq =>
      obtain rfl := Except.ok.inj h
      obtain ⟨hdepth, -⟩ := hfits
      obtain ⟨m, rfl⟩ := Nat.exists_eq_add_one.2 (Nat.zero_lt_of_lt hdepth)
      exact ⟨m, rfl, fun e he =>
        (Tree.read_of_members? trees heq e he).mono (Nat.le_of_succ_le_succ hdepth)⟩

theorem members_ofMembers {mode : Mode} {ms : List (String × Json.Value)}
    (h : Json.Value.OrderedMembers ms) : members mode (.object (Tree.ofMembers ms)) = .ok ms := by
  simp [members, Tree.members?_ofMembers ms h]

theorem depth_ofMembers_le {n : Nat} {ms : List (String × Json.Value)}
    (h : ∀ e ∈ ms, Tree.Read n e.2) : (Tree.object (Tree.ofMembers ms)).depth ≤ n + 1 := by
  refine Nat.succ_le_succ (Tree.depthMembers_le.2 ?_)
  rw [Tree.ofMembers_eq]
  exact List.forall_mem_map.2 fun e he => (h e he).2

/-- Arguments name each parameter once. -/
def ProperArguments (arguments : List (String × Json.Value)) : Prop :=
  (arguments.map (·.1)).Nodup ∧ Json.Value.OrderedMembers arguments

theorem faithful_authored :
    Faithful (fun ms => .object (Tree.ofMembers ms)) authored ProperArguments id 1 where
  valued ms := Tree.valued_object.2 (Tree.valued_ofMembers ms)
  reads mode ms h := by
    rw [authored, members_ofMembers h.2]
    exact congrArg Except.ok (Assoc.authored_of_nodup h.1)
  found mode tree n ms hfits h := by
    cases hmembers : members mode tree with
    | error fault => rw [authored, hmembers] at h; cases h
    | ok found =>
      rw [authored, hmembers] at h
      obtain rfl : Assoc.authored found = ms := Except.ok.inj h
      obtain ⟨m, rfl, hread⟩ := members_eq_ok hfits hmembers
      have hvalues := fun e he => hread e (Assoc.mem_of_mem_authored he)
      exact ⟨⟨Assoc.nodup_keys_authored found,
          Tree.orderedMembers_iff.2 fun e he => (hvalues e he).1⟩, rfl,
        Nat.le_trans (depth_ofMembers_le hvalues) (Nat.le_max_left ..)⟩

theorem faithful_ascending : Faithful (fun ms => .object (Tree.ofMembers ms)) ascending
    (fun ms => (Json.Value.object ms).Ordered) id 1 where
  valued ms := Tree.valued_object.2 (Tree.valued_ofMembers ms)
  reads mode ms h := by
    rw [ascending, members_ofMembers h.2]
    exact congrArg Except.ok (Assoc.ascending_of_ascending h.1)
  found mode tree n ms hfits h := by
    cases hmembers : members mode tree with
    | error fault => rw [ascending, hmembers] at h; cases h
    | ok found =>
      rw [ascending, hmembers] at h
      obtain rfl : Assoc.ascending found = ms := Except.ok.inj h
      obtain ⟨m, rfl, hread⟩ := members_eq_ok hfits hmembers
      have hvalues := fun e he => hread e (Assoc.mem_of_mem_ascending he)
      exact ⟨⟨Assoc.ascending_ascending found,
          Tree.orderedMembers_iff.2 fun e he => (hvalues e he).1⟩, rfl,
        Nat.le_trans (depth_ofMembers_le hvalues) (Nat.le_max_left ..)⟩

/-! ### Fields -/

namespace Faithful

variable {encode : α → Tree} {decode : Decoder α} {Proper : α → Prop} {settle : α → α}
  {floor n : Nat} {f : Fields} {name : String} {a : α}

/-- A field that may be left out is read back. -/
theorem optional_written (h : Faithful encode decode Proper settle floor) {title : String}
    {names : List String} {mode : Mode} {entries : List (String × Tree)} {value : Option α}
    (hstanding : standing name entries = (value.map encode).toList)
    (hproper : ∀ a ∈ value, Proper a) (hnull : ∀ a ∈ value, encode a ≠ .null) :
    (Fields.ofObject title names mode entries).optional name decode = .ok (value.map settle) := by
  refine Decode.optional_written hstanding (fun a ha => ?_) (fun hnone => by rw [hnone]; rfl)
  rw [nullable_eq_ok (h.reads mode a (hproper a ha)) (hnull a ha), ha]
  rfl

theorem required (h : Faithful encode decode Proper settle floor)
    (hfits : ∀ t ∈ f.trees, t.Fits n) (hread : f.required name decode = .ok a) :
    Proper a ∧ settle a = a ∧ (encode a).depth ≤ max n floor := by
  obtain ⟨tree, htree, hdecode⟩ := required_eq_ok hread
  exact h.found _ tree n a (hfits tree htree) hdecode

theorem withDefault (h : Faithful encode decode Proper settle floor) {value : α}
    (hfits : ∀ t ∈ f.trees, t.Fits n) (hread : f.withDefault name decode value = .ok a)
    (hvalue : Proper value ∧ settle value = value ∧ (encode value).depth ≤ max n floor) :
    Proper a ∧ settle a = a ∧ (encode a).depth ≤ max n floor := by
  rcases withDefault_eq_ok hread with rfl | ⟨tree, htree, hdecode⟩
  · exact hvalue
  · exact h.found _ tree n a (hfits tree htree) hdecode

theorem optional (h : Faithful encode decode Proper settle floor) {found : Option α}
    (hfits : ∀ t ∈ f.trees, t.Fits n) (hread : f.optional name decode = .ok found) :
    ∀ a ∈ found, Proper a ∧ settle a = a ∧ (encode a).depth ≤ max n floor := by
  intro a ha
  obtain ⟨tree, htree, -, hdecode⟩ := optional_eq_ok hread a ha
  exact h.found _ tree n a (hfits tree htree) hdecode

end Faithful

/-- The result of a decoder that goes on with a function. -/
theorem map_eq_ok {α β : Type} {r : Except Fault α} {g : α → β} {b : β} (h : r.map g = .ok b) :
    ∃ a, r = .ok a ∧ g a = b := by
  cases r with
  | error fault => cases h
  | ok a => exact ⟨a, rfl, Except.ok.inj h⟩

end Flowgraph.Decode
