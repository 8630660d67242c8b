import Flowgraph.Activity.Builtin
import Flowgraph.Proofs.Assoc
import Mathlib.Data.Finset.Card

/-!
# What a registry keeps of its registrations

A registry comes about by registrations, of one activity at a time or of those that come along all
at once. What it keeps of them is said by `Registry.Records`: the names in the order in which each
of them was registered **first**, and under each name the handler and the schema that were
registered **last** (`LastUnder`), even if that is no schema. One registration keeps to this
(`Records.register`), and so does every history of registrations (`ofHistory_exact`).
-/

set_option autoImplicit false

namespace Flowgraph.Activity

open Run

variable {r : Registry} {name : String} {entry : Registry.Entry}
  {past : List (String × Registry.Entry)}

/-! ### What a registry answers for a name -/

/-- The reply to a call of a name that is registered. -/
theorem invoker_of_get? {handler : Handler} {own : Option Schema} {earlier : List Invocation}
    {given : Store} (h : Assoc.get? name r = some ⟨handler, own⟩) :
    r.invoker earlier ⟨name, given⟩ =
      ⟨(handler earlier given).delay, .result (handler earlier given).conclusion.toResult⟩ := by
  simp [Registry.invoker, Registry.handler?, h]

/-- A registry fails the calls of names that it does not know, at once. -/
theorem invoker_eq_notFound {calls : List Invocation} {call : Invocation}
    (h : r.has call.name = false) :
    r.invoker calls call = ⟨0, .result (Registry.notFound call.name)⟩ := by
  have hnone : Assoc.get? call.name r = none := by
    simpa [Registry.has, Assoc.contains] using h
  simp [Registry.invoker, Registry.handler?, hnone]

namespace Registry

/-- Whether a registry answers for a name with an entry, in look-ups and in calls. A call takes as
long as the handler and is answered with the result of the handler as it is; an error and a panic
are answered with a failed result that has their text. -/
structure Offers (r : Registry) (name : String) (entry : Registry.Entry) : Prop where
  has : r.has name = true
  handler : r.handler? name = some entry.handler
  schema : r.schema? name = entry.schema
  calls : ∀ earlier given, r.invoker earlier ⟨name, given⟩ =
    ⟨(entry.handler earlier given).delay, .result <|
      match (entry.handler earlier given).conclusion with
      | .result result => result
      | .error text | .panic (.text text) => { success := false, data := none, error := some text }
      | .panic .opaqueValue => { success := false, data := none, error := some "Unknown error" }⟩

/-- Whether a name is absent from a registry, in look-ups and in calls. -/
structure Lacks (r : Registry) (name : String) : Prop where
  has : r.has name = false
  handler : r.handler? name = none
  schema : r.schema? name = none
  calls : ∀ earlier given, r.invoker earlier ⟨name, given⟩ =
    ⟨0, .result {
      success := false
      data := none
      error := some ("Activity '" ++ name ++ "' not found in registry") }⟩

theorem offers_of_get? (h : Assoc.get? name r = some entry) : r.Offers name entry where
  has := by simp [has, Assoc.contains, h]
  handler := by simp [handler?, h]
  schema := by simp [schema?, h]
  calls earlier given := by
    rw [invoker_of_get? h]
    cases (entry.handler earlier given).conclusion with
    | panic payload => cases payload <;> rfl
    | _ => rfl

theorem lacks_of_get? (h : Assoc.get? name r = none) : r.Lacks name := by
  have hhas : r.has name = false := by simp [has, Assoc.contains, h]
  exact ⟨hhas, by simp [handler?, h], by simp [schema?, h], fun _ _ => invoker_eq_notFound hhas⟩

/-- The schemas of a registry whose names are distinct are those of its names. -/
theorem schemas_eq (h : r.names.Nodup) : r.schemas = r.names.filterMap r.schema? := by
  unfold schemas names
  rw [List.filterMap_map]
  refine List.filterMap_congr fun e he => ?_
  have hget : Assoc.get? e.1 r = some e.2 := Assoc.get?_of_mem h he
  simp [schema?, hget]

end Registry

/-! ### The last of several entries -/

/-- Whether an entry is the last one of a list under a name. -/
def LastUnder (name : String) (entry : Registry.Entry)
    (past : List (String × Registry.Entry)) : Prop :=
  ∃ before after, past = before ++ (name, entry) :: after ∧ name ∉ after.map (·.1)

theorem not_lastUnder_nil : ¬ LastUnder name entry [] := by
  intro h
  obtain ⟨before, after, heq, -⟩ := h
  simp at heq

/-- A further entry is the last one under its own name and changes nothing under the others. -/
theorem lastUnder_concat {e : String × Registry.Entry} : LastUnder name entry (past ++ [e]) ↔
    if e.1 = name then e.2 = entry else LastUnder name entry past := by
  constructor
  · intro h
    obtain ⟨before, after, heq, hlast⟩ := h
    rcases List.eq_nil_or_concat after with rfl | ⟨after, last, rfl⟩
    · -- nothing comes after the entry, so it is the further one
      obtain ⟨-, rfl⟩ := List.append_singleton_inj.1 heq
      rw [if_pos rfl]
    · -- the further one is the last of those that come after the entry, under another name
      rw [List.concat_eq_append, ← List.cons_append, ← List.append_assoc] at heq
      obtain ⟨rfl, rfl⟩ := List.append_singleton_inj.1 heq
      simp only [List.concat_eq_append, List.map_append, List.mem_append, not_or] at hlast
      have hne : e.1 ≠ name := by
        intro hname
        simp [hname] at hlast
      rw [if_neg hne]
      exact ⟨before, after, rfl, hlast.1⟩
  · intro h
    split at h
    · rename_i hname
      obtain rfl := h
      exact ⟨past, [], by rw [← hname], List.not_mem_nil⟩
    · rename_i hname
      obtain ⟨before, after, rfl, hlast⟩ := h
      exact ⟨before, after ++ [e], by simp, by simp [hlast, Ne.symm hname]⟩

/-! ### The order of first registrations -/

/-- Whether names stand in the order in which each of them comes first in a list. -/
def OrderedBy (list names : List String) : Prop :=
  names.Pairwise fun a b => list.idxOf a < list.idxOf b

section

variable {list names : List String}

/-- Names that are in a list stand in the order of a longer list, too. -/
theorem OrderedBy.append (h : OrderedBy list names) (hmem : ∀ a ∈ names, a ∈ list)
    (more : List String) : OrderedBy (list ++ more) names := by
  refine h.imp_of_mem fun ha hb hlt => ?_
  rw [List.idxOf_append_of_mem (hmem _ ha), List.idxOf_append_of_mem (hmem _ hb)]
  exact hlt

/-- A name that is new comes last. -/
theorem OrderedBy.concat (h : OrderedBy list names) (hmem : ∀ a ∈ names, a ∈ list)
    (hnew : name ∉ list) : OrderedBy (list ++ [name]) (names ++ [name]) := by
  refine List.pairwise_append.2
    ⟨h.append hmem [name], List.pairwise_singleton _ _, fun a ha b hb => ?_⟩
  obtain rfl := List.mem_singleton.1 hb
  have hlt := List.idxOf_lt_length_of_mem (hmem a ha)
  rw [List.idxOf_append_of_mem (hmem a ha), List.idxOf_append_of_notMem hnew]
  omega

theorem OrderedBy.nodup (h : OrderedBy list names) : names.Nodup :=
  h.imp fun hlt heq => by simp [heq] at hlt

end

/-! ### What is kept -/

namespace Registry

/-- Whether a registry is as it is after some entries have been registered, the first one first. -/
structure Records (r : Registry) (past : List (String × Registry.Entry)) : Prop where
  /-- The names are those that were registered, -/
  mem_names : ∀ name, name ∈ r.names ↔ name ∈ past.map (·.1)
  /-- in the order of their first registrations. -/
  ordered : OrderedBy (past.map (·.1)) r.names
  /-- A name has the entry of its last registration. -/
  get?_iff : ∀ name entry, Assoc.get? name r = some entry ↔ LastUnder name entry past

namespace Records

theorem nil : Records [] [] where
  mem_names _ := Iff.rfl
  ordered := List.Pairwise.nil
  get?_iff _ _ := iff_of_false nofun not_lastUnder_nil

/-- **One registration.** A name that is new goes to the end, and one that is known keeps its
place. -/
theorem register (h : Records r past) (name : String) (handler : Handler)
    (schema : Option Schema) :
    Records (r.register name handler schema) (past ++ [(name, ⟨handler, schema⟩)]) := by
  have hnames : (r.register name handler schema).names =
      if name ∈ r.names then r.names else r.names ++ [name] := Assoc.keys_set ..
  have hpast : (past ++ [(name, (⟨handler, schema⟩ : Registry.Entry))]).map (·.1) =
      past.map (·.1) ++ [name] := List.map_append
  have hmem : ∀ a ∈ r.names, a ∈ past.map (·.1) := fun a => (h.mem_names a).1
  refine ⟨fun other => ?_, ?_, fun other entry => ?_⟩
  · rw [hnames, hpast, List.mem_append, ← h.mem_names, List.mem_singleton]
    split
    · rename_i hknown
      exact ⟨Or.inl, fun hmem => hmem.elim id fun heq => heq ▸ hknown⟩
    · rw [List.mem_append, List.mem_singleton]
  · rw [hnames, hpast]
    split
    · exact h.ordered.append hmem [name]
    · rename_i hnew
      exact h.ordered.concat hmem fun hpast => hnew ((h.mem_names name).2 hpast)
  · unfold Registry.register
    rw [Assoc.get?_set, lastUnder_concat, ← h.get?_iff]
    split
    · exact Option.some_inj
    · exact Iff.rfl

theorem nodup (h : Records r past) : r.names.Nodup := h.ordered.nodup

/-- There are as many activities as names were registered. -/
theorem length_eq (h : Records r past) : r.length = (past.map (·.1)).toFinset.card := by
  have hsame : (past.map (·.1)).toFinset = r.names.toFinset := by
    ext name
    rw [List.mem_toFinset, List.mem_toFinset, h.mem_names]
  rw [hsame, List.toFinset_card_of_nodup h.nodup, names, List.length_map]

theorem exists_lastUnder (h : Records r past) (hname : name ∈ r.names) :
    ∃ entry, LastUnder name entry past := by
  obtain ⟨e, he, rfl⟩ := List.mem_map.1 hname
  exact ⟨e.2, (h.get?_iff _ _).1 (Assoc.get?_of_mem h.nodup he)⟩

theorem offers (h : Records r past) (hlast : LastUnder name entry past) :
    r.Offers name entry :=
  offers_of_get? ((h.get?_iff _ _).2 hlast)

theorem lacks (h : Records r past) (hname : name ∉ past.map (·.1)) : r.Lacks name :=
  lacks_of_get? (Assoc.get?_eq_none fun hmem => hname ((h.mem_names name).1 hmem))

end Records

end Registry

/-! ### Histories -/

/-- A registration: of one activity, or of all that come along. -/
inductive Registration where
  | single (name : String) (handler : Handler) (schema : Option Schema)
  | builtin (o : Builtin.Options)

namespace Registration

/-- Registers in a registry. -/
def perform (r : Registry) : Registration → Registry
  | .single name handler schema => r.register name handler schema
  | .builtin o => Builtin.register r o

open Builtin in
/-- The entries that are registered one after the other. -/
def entries : Registration → List (String × Registry.Entry)
  | .single name handler schema => [(name, ⟨handler, schema⟩)]
  | .builtin o =>
    [ ("sendEmail", ⟨sendEmail o, some sendEmailSchema⟩),
      ("httpRequest", ⟨httpRequest o, some httpRequestSchema⟩),
      ("transformData", ⟨transformData, some transformDataSchema⟩),
      ("wait", ⟨wait o, some waitSchema⟩),
      ("logMessage", ⟨logMessage, some logMessageSchema⟩),
      ("echo", ⟨echo, some echoSchema⟩) ]

end Registration

namespace Registry

/-- The registry after some registrations, the first one first. -/
def ofHistory (history : List Registration) : Registry := history.foldl Registration.perform []

theorem Records.perform (h : Records r past) (x : Registration) :
    Records (x.perform r) (past ++ x.entries) := by
  cases x with
  | single name handler schema => exact h.register name handler schema
  | builtin o =>
    have hall := h.register "sendEmail" (Builtin.sendEmail o) (some Builtin.sendEmailSchema)
      |>.register "httpRequest" (Builtin.httpRequest o) (some Builtin.httpRequestSchema)
      |>.register "transformData" Builtin.transformData (some Builtin.transformDataSchema)
      |>.register "wait" (Builtin.wait o) (some Builtin.waitSchema)
      |>.register "logMessage" Builtin.logMessage (some Builtin.logMessageSchema)
      |>.register "echo" Builtin.echo (some Builtin.echoSchema)
    simp only [List.append_assoc] at hall
    exact hall

/-- **Any number of registrations.** -/
theorem Records.history (h : Records r past) (history : List Registration) :
    Records (history.foldl Registration.perform r)
      (past ++ history.flatMap Registration.entries) := by
  induction history generalizing r past with
  | nil => simpa using h
  | cons x history ih =>
    rw [List.foldl_cons, List.flatMap_cons, ← List.append_assoc]
    exact ih (h.perform x)

theorem records_ofHistory (history : List Registration) :
    Records (ofHistory history) (history.flatMap Registration.entries) :=
  Records.nil.history history

/-- **A registry keeps the order of first registrations, and of each name the last one.** The names
are all different and stand in the order in which each was registered first, and there are as many
activities as names. For a name that was registered, look-ups and calls go by the handler and the
schema of its last registration; the schemas are those in the order of the names. For all other
names there is nothing. -/
theorem ofHistory_exact (history : List Registration) :
    let r := ofHistory history
    let entries := history.flatMap Registration.entries
    r.names.Nodup ∧
    (∀ name, name ∈ r.names ↔ name ∈ entries.map (·.1)) ∧
    OrderedBy (entries.map (·.1)) r.names ∧
    r.length = (entries.map (·.1)).toFinset.card ∧
    (∀ name ∈ r.names, ∃ entry, LastUnder name entry entries) ∧
    (∀ name entry, LastUnder name entry entries → r.Offers name entry) ∧
    r.schemas = r.names.filterMap r.schema? ∧
    (∀ name, name ∉ entries.map (·.1) → r.Lacks name) := by
  intro r entries
  have h : Records r entries := records_ofHistory history
  exact ⟨h.nodup, h.mem_names, h.ordered, h.length_eq, fun _ => h.exists_lastUnder,
    fun _ _ => h.offers, schemas_eq h.nodup, fun _ => h.lacks⟩

/-- A greeting is registered before the activities that come along and once more after them, and
`echo` loses its schema. -/
def renewed : List Registration :=
  [ .single "greet" Builtin.logMessage (some Builtin.echoSchema), .builtin {},
    .single "echo" Builtin.logMessage none, .single "greet" Builtin.echo none ]

/-- Both keep their places, and go by their last registrations: the greeting gives its arguments
back now, and `echo` writes to the log. -/
theorem ofHistory_exact_renewed :
    (ofHistory renewed).names = ["greet", "sendEmail", "httpRequest", "transformData", "wait",
      "logMessage", "echo"] ∧
    LastUnder "echo" ⟨Builtin.logMessage, none⟩ (renewed.flatMap Registration.entries) ∧
    (ofHistory renewed).Offers "echo" ⟨Builtin.logMessage, none⟩ ∧
    (ofHistory renewed).invoker [] ⟨"echo", [("name", .string "Ann")]⟩ = ⟨0, .result {
      success := true, data := some (.object [("logged", .bool true)]), error := none }⟩ ∧
    (ofHistory renewed).invoker [] ⟨"greet", [("name", .string "Ann")]⟩ = ⟨0, .result {
      success := true, data := some (.object [("name", .string "Ann")]), error := none }⟩ ∧
    "shout" ∉ (renewed.flatMap Registration.entries).map (·.1) ∧
    (ofHistory renewed).Lacks "shout" ∧
    (ofHistory renewed).invoker [] ⟨"shout", []⟩ = ⟨0, .result {
      success := false, data := none,
      error := some "Activity 'shout' not found in registry" }⟩ := by
  obtain ⟨-, -, -, -, -, hoffers, -, hlacks⟩ := ofHistory_exact renewed
  have hecho : LastUnder "echo" ⟨Builtin.logMessage, none⟩
      (renewed.flatMap Registration.entries) :=
    ⟨(renewed.flatMap Registration.entries).take 7, [("greet", ⟨Builtin.echo, none⟩)], rfl,
      by decide⟩
  have hgreet : LastUnder "greet" ⟨Builtin.echo, none⟩ (renewed.flatMap Registration.entries) :=
    ⟨(renewed.flatMap Registration.entries).take 8, [], rfl, by decide⟩
  have hnever : "shout" ∉ (renewed.flatMap Registration.entries).map (·.1) := by decide
  have hlacking := hlacks _ hnever
  exact ⟨rfl, hecho, hoffers _ _ hecho, (hoffers _ _ hecho).calls _ _,
    (hoffers _ _ hgreet).calls _ _, hnever, hlacking, hlacking.calls _ _⟩

end Registry

end Flowgraph.Activity
