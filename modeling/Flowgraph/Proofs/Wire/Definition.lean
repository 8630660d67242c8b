import Flowgraph.Definition.Wire
import Flowgraph.Proofs.Decode.Faithful

/-!
# Definitions are read back

A step is written as one object in which its own fields stand around those of its work. The two are
told apart by their names when it is read, so none of the names may be shared
(`Work.within_encode`); arguments are one field of the work, whatever their own names are.
-/

set_option autoImplicit false

namespace Flowgraph

open Decode

/-! ### Arguments -/

section Arguments

variable {title : String} {names : List String} {mode : Mode} {entries : List (String × Tree)}
  {f : Fields} {m : Nat}

/-- The arguments that are written: none at all are left out. -/
def Arguments.written? (arguments : Arguments) : Option Arguments :=
  if arguments.isEmpty then none else some arguments

theorem Arguments.member?_eq (arguments : Arguments) : arguments.member? =
    Tree.member? "arguments" (fun ms => .object (Tree.ofMembers ms)) arguments.written? := by
  unfold member? written?
  split <;> rfl

theorem Arguments.written?_getD (arguments : Arguments) : arguments.written?.getD [] = arguments := by
  cases arguments <;> rfl

theorem Arguments.eq_of_mem_written? {arguments written : Arguments}
    (h : written ∈ arguments.written?) : written = arguments := by
  cases arguments with
  | nil => cases h
  | cons => exact (Option.some.inj h).symm

@[simp] theorem Arguments.standing_member? {name : String} (arguments : Arguments) :
    standing name arguments.member? = if "arguments" = name then (arguments.written?.map
      fun ms => .object (Tree.ofMembers ms)).toList else [] := by
  rw [member?_eq, Decode.standing_member?]

@[simp] theorem Arguments.within_member? (arguments : Arguments) (h : "arguments" ∈ names) :
    Within names arguments.member? := by
  rw [member?_eq]
  exact Decode.within_member? h

theorem Arguments.valued_member? (arguments : Arguments) :
    Each Tree.Valued arguments.member? := by
  rw [member?_eq, each_member?]
  exact fun ms _ => faithful_authored.valued ms

/-- Arguments that have been written are read back, -/
theorem Arguments.read {arguments : Arguments} (h : ProperArguments arguments)
    (hstanding : standing "arguments" entries = (arguments.written?.map
      fun ms => .object (Tree.ofMembers ms)).toList) :
    (Fields.ofObject title names mode entries).withDefault "arguments" authored [] =
      .ok arguments := by
  refine withDefault_written hstanding (fun ms hms => ?_) arguments.written?_getD
  rw [eq_of_mem_written? hms]
  exact faithful_authored.reads mode arguments h

/-- and arguments that have been read are proper and written no deeper. -/
theorem Arguments.found {arguments : Arguments} (hfits : ∀ t ∈ f.trees, t.Fits m)
    (h : f.withDefault "arguments" authored [] = .ok arguments) :
    ProperArguments arguments ∧ Each (·.depth ≤ max m 1) arguments.member? := by
  have hnone : ProperArguments [] ∧ id [] = ([] : Arguments) ∧
      (Tree.object (Tree.ofMembers [])).depth ≤ max m 1 :=
    ⟨⟨List.nodup_nil, trivial⟩, rfl, Nat.le_max_right ..⟩
  obtain ⟨hproper, -, hdepth⟩ := faithful_authored.withDefault hfits h hnone
  refine ⟨hproper, ?_⟩
  rw [member?_eq, each_member?]
  exact fun ms hms => eq_of_mem_written? hms ▸ hdepth

end Arguments

/-! ### Work -/

namespace Call

/-- The arguments of a proper call name each parameter once. -/
def Proper (c : Call) : Prop := ProperArguments c.arguments

theorem valued (c : Call) : Each Tree.Valued c.encode := by
  simp [encode, c.arguments.valued_member?]

theorem faithful : Faithful (fun c => .object c.encode) decode Proper id 2 where
  valued c := valued_of_each c.valued
  reads mode c h := by
    obtain ⟨activity, arguments, result⟩ := c
    refine record_object (Part.seq_written (Part.seq_written (Part.map_written ?_) ?_) ?_) ?_
    · exact withDefault_always (.string activity) (by simp [encode]) rfl
    · exact Arguments.read h (by simp [encode])
    · exact optional_text (by simp [encode])
    · simp [encode]
  found mode tree n c hfits h := by
    obtain ⟨m, f, rfl, hf, hparts⟩ := record_eq_ok hfits h
    simp only [Part.seq_eq_ok, Part.map_eq_ok] at hparts
    obtain ⟨_, result, ⟨_, arguments, ⟨activity, -, rfl⟩, harguments, rfl⟩, -, rfl⟩ := hparts
    obtain ⟨hproper, hdepth⟩ := Arguments.found hf harguments
    exact ⟨hproper, rfl, depth_of_each (by
      simp only [encode, each_cons, each_append, each_text?, Tree.depth_string, Nat.zero_le,
        implies_true, and_self, hdepth])⟩

end Call

namespace Choice

/-- The arguments of a proper choice name each operand once. -/
def Proper (c : Choice) : Prop := ProperArguments c.arguments

theorem valued (c : Choice) : Each Tree.Valued c.encode := by
  simp [encode, c.arguments.valued_member?]

theorem faithful : Faithful (fun c => .object c.encode) decode Proper id 2 where
  valued c := valued_of_each c.valued
  reads mode c h := by
    obtain ⟨arguments, onSuccess, onFailure⟩ := c
    refine record_object (Part.seq_written (Part.seq_written (Part.map_written ?_) ?_) ?_) ?_
    · exact Arguments.read h (by simp [encode])
    · exact optional_text (by simp [encode])
    · exact optional_text (by simp [encode])
    · simp [encode]
  found mode tree n c hfits h := by
    obtain ⟨m, f, rfl, hf, hparts⟩ := record_eq_ok hfits h
    simp only [Part.seq_eq_ok, Part.map_eq_ok] at hparts
    obtain ⟨_, onFailure, ⟨_, onSuccess, ⟨arguments, harguments, rfl⟩, -, rfl⟩, -, rfl⟩ := hparts
    obtain ⟨hproper, hdepth⟩ := Arguments.found hf harguments
    exact ⟨hproper, rfl, depth_of_each (by
      simp only [encode, each_append, each_text?, Tree.depth_string, Nat.zero_le,
        implies_true, and_self, hdepth])⟩

end Choice

namespace Work

/-- The arguments of proper work name each parameter once. -/
def Proper : Work → Prop
  | .activity call => call.Proper
  | .condition choice => choice.Proper
  | .sequence _ | .parallel _ => True

/-- The written fields of some work without its tag. -/
def content : Work → List (String × Tree)
  | .activity call => call.encode
  | .sequence steps => [("steps", .texts steps)]
  | .parallel branches => [("branches", .texts branches)]
  | .condition choice => choice.encode

theorem encode_eq (w : Work) : w.encode = ("type", .string w.kind) :: w.content := by
  cases w <;> rfl

theorem valued_content (w : Work) : Each Tree.Valued w.content := by
  cases w with
  | activity call => exact call.valued
  | sequence steps => exact each_cons.2 ⟨faithful_texts.valued steps, each_nil⟩
  | parallel branches => exact each_cons.2 ⟨faithful_texts.valued branches, each_nil⟩
  | condition choice => exact choice.valued

/-- The names of the written fields of work without its tag. -/
def contentNames : List String :=
  ["activityName", "arguments", "resultVariable", "steps", "branches", "onSuccess", "onFailure"]

theorem within_content (w : Work) : Within contentNames w.content := by
  cases w <;> simp [content, contentNames, Call.encode, Choice.encode]

theorem within_encode (w : Work) : Within ("type" :: contentNames) w.encode := by
  rw [encode_eq]
  exact within_cons.2 ⟨List.mem_cons_self .., fun e he =>
    List.mem_cons_of_mem _ (w.within_content e he)⟩

/-- A record whose only field is a list of texts is read back, -/
theorem record_texts (title name : String) (make : List String → Work) (mode : Mode)
    (texts : List String) : record title [name] (fun f => make <$> f.withDefault name (list text) [])
      mode (.object [(name, .texts texts)]) = .ok (make texts) := by
  refine record_object (Part.map_written ?_) (by simp)
  exact withDefault_always (.texts texts) (by simp) (faithful_texts.reads mode texts trivial)

/-- and what has been read of it is written no deeper. -/
theorem record_texts_eq_ok {title name : String} {make : List String → Work} {mode : Mode}
    {tree : Tree} {m : Nat} {w : Work} (hfits : tree.Fits (m + 1))
    (h : record title [name] (fun f => make <$> f.withDefault name (list text) []) mode tree =
      .ok w) : ∃ texts, make texts = w ∧ (Tree.texts texts).depth ≤ max m 1 := by
  obtain ⟨_, f, ⟨rfl⟩, hf, hparts⟩ := record_eq_ok hfits h
  obtain ⟨texts, htexts, rfl⟩ := Part.map_eq_ok.1 hparts
  exact ⟨texts, rfl, (faithful_texts.withDefault hf htexts
    ⟨trivial, rfl, Nat.le_max_right ..⟩).2.2⟩

/-- Some work is read back from its members, -/
theorem members_encode (w : Work) (h : w.Proper) (mode : Mode) :
    tagged.members mode w.encode = .ok w := by
  have hapart : Apart [tagged.tag] w.content := w.within_content.apart (by decide)
  rw [encode_eq]
  cases w with
  | activity call =>
    refine Tagged.members_object (t := tagged) _ rfl hapart (valued_content _) ?_
    simp only [content, Call.faithful.reads .kept call h]
    rfl
  | sequence steps =>
    exact Tagged.members_object (t := tagged) _ rfl hapart (valued_content _) (record_texts ..)
  | parallel branches =>
    exact Tagged.members_object (t := tagged) _ rfl hapart (valued_content _) (record_texts ..)
  | condition choice =>
    refine Tagged.members_object (t := tagged) _ rfl hapart (valued_content _) ?_
    simp only [content, Choice.faithful.reads .kept choice h]
    rfl

/-- and work that has been read is proper and written no deeper. -/
theorem found_of_alternative {alternative : String × Decoder Work}
    (halternative : alternative ∈ tagged.alternatives) {tree : Tree} {m : Nat}
    (hfits : tree.Fits (m + 1)) {w : Work} (h : alternative.2 .kept tree = .ok w) :
    w.Proper ∧ Each (·.depth ≤ max m 1) w.encode := by
  suffices hcontent : w.Proper ∧ Each (·.depth ≤ max m 1) w.content from
    ⟨hcontent.1, w.encode_eq ▸ each_cons.2 ⟨Nat.zero_le _, hcontent.2⟩⟩
  simp only [tagged, List.mem_cons, List.not_mem_nil, or_false] at halternative
  rcases halternative with rfl | rfl | rfl | rfl
  · obtain ⟨call, hcall, rfl⟩ := map_eq_ok h
    obtain ⟨hproper, -, hdepth⟩ := Call.faithful.found .kept tree _ call hfits hcall
    exact ⟨hproper, each_of_depth hdepth⟩
  · obtain ⟨texts, rfl, hdepth⟩ := record_texts_eq_ok hfits h
    exact ⟨trivial, each_cons.2 ⟨hdepth, each_nil⟩⟩
  · obtain ⟨texts, rfl, hdepth⟩ := record_texts_eq_ok hfits h
    exact ⟨trivial, each_cons.2 ⟨hdepth, each_nil⟩⟩
  · obtain ⟨choice, hchoice, rfl⟩ := map_eq_ok h
    obtain ⟨hproper, -, hdepth⟩ := Choice.faithful.found .kept tree _ choice hfits hchoice
    exact ⟨hproper, each_of_depth hdepth⟩

theorem valued (w : Work) : Each Tree.Valued w.encode :=
  w.encode_eq ▸ each_cons.2 ⟨Tree.valued_string _, w.valued_content⟩

theorem faithful : Faithful (fun w => .object w.encode) decode Proper id 2 where
  valued w := valued_of_each w.valued
  reads mode w h := members_encode w h mode
  found mode tree n w hfits h := by
    obtain ⟨m, alternative, content, rfl, hmem, hcontent, hread⟩ := Tagged.decode_eq_ok hfits h
    obtain ⟨hproper, hdepth⟩ := found_of_alternative hmem hcontent hread
    exact ⟨hproper, rfl, depth_of_each hdepth⟩

end Work

/-! ### Steps and definitions -/

namespace Step

/-- The work of a proper step is proper. -/
def Proper (s : Step) : Prop := s.work.Proper

theorem valued (s : Step) : s.encode.Valued := valued_of_each (by simp [Work.valued])

theorem faithful : Faithful encode decode Proper (fun s => s) 2 where
  valued := valued
  reads mode s h := by
    obtain ⟨id, name, work, next⟩ := s
    have hapart : Apart ["id", "name", "next"] work.encode := work.within_encode.apart (by decide)
    have hnone (field : String) (hfield : field ∈ ["id", "name", "next"]) :
        standing field work.encode = [] := hapart.standing_eq_nil hfield
    have hkept : (("id", .string id) :: Tree.text? "name" name ++ work.encode ++
        Tree.text? "next" next).filter (fun e => !(["id", "name", "next"].contains e.1)) =
        work.encode := filter_around (by simp) hapart (by simp)
    refine flattened_object (a := (id, name, next)) (b := work) (Part.seq_written (Part.seq_written
      (Part.map_written ?_) ?_) ?_) ?_ ?_
    · exact required_written (.string id) (by simp [hnone]) rfl
    · exact optional_text (by simp [hnone])
    · exact optional_text (by simp [hnone])
    · simp [Work.valued]
    · rw [hkept]
      exact work.members_encode h .kept
  found mode tree n s hfits h := by
    obtain ⟨m, f, own, kept, work, rfl, hf, hparts, hkept, hwork, rfl⟩ := flattened_eq_ok hfits h
    obtain ⟨_, alternative, content, ⟨rfl⟩, hmem, hcontent, hread⟩ :=
      Tagged.members_eq_ok hkept hwork
    obtain ⟨hproper, hdepth⟩ := Work.found_of_alternative hmem hcontent hread
    exact ⟨hproper, rfl, depth_of_each (by
      simp only [each_cons, each_append, each_text?, Tree.depth_string, Nat.zero_le,
        implies_true, and_self, hdepth])⟩

end Step

namespace Definition

/-- The steps of a proper definition are proper. -/
def Proper (d : Definition) : Prop := ∀ s ∈ d.steps, s.Proper

theorem faithful : Faithful encode decode Proper id 4 where
  valued d := valued_of_each (by simp [Step.valued])
  reads mode d h := by
    obtain ⟨name, description, version, root, steps⟩ := d
    refine record_object (Part.seq_written (Part.seq_written (Part.seq_written (Part.seq_written
      (Part.map_written ?_) ?_) ?_) ?_) ?_) ?_
    · exact required_written (.string name) (by simp) rfl
    · exact optional_text (by simp)
    · exact withDefault_always (.string version) (by simp) rfl
    · exact withDefault_always (.string root) (by simp) rfl
    · exact withDefault_always (.array (steps.map Step.encode)) (by simp)
        ((Step.faithful.list.reads mode steps h).trans (congrArg _ (List.map_id steps)))
    · simp
  found mode tree n d hfits h := by
    obtain ⟨m, f, rfl, hf, hparts⟩ := record_eq_ok hfits h
    simp only [Part.seq_eq_ok, Part.map_eq_ok] at hparts
    obtain ⟨_, steps, ⟨_, root, ⟨_, version, ⟨_, description, ⟨name, -, rfl⟩, -, rfl⟩, -, rfl⟩, -,
      rfl⟩, hsteps, rfl⟩ := hparts
    obtain ⟨hproper, -, hdepth⟩ := Step.faithful.list.withDefault hf hsteps
      ⟨List.forall_mem_nil _, rfl, Nat.le_trans (by decide : 1 ≤ 3) (Nat.le_max_right ..)⟩
    exact ⟨hproper, rfl, depth_of_each (by
      simp only [each_cons, each_append, each_text?, each_nil, Tree.depth_string, Nat.zero_le,
        implies_true, and_self, hdepth])⟩

end Definition

end Flowgraph
