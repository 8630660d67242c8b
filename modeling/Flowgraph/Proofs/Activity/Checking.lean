import Flowgraph.Activity.Arguments
import Flowgraph.Activity.Builtin
import Flowgraph.Proofs.Assoc
import Flowgraph.Proofs.Binary64.Integers
import Flowgraph.Proofs.Variable.Reference
import Mathlib.Data.List.TakeWhile

/-!
# Which arguments a schema accepts

`Parameter.Accepts` says which arguments a parameter takes without mentioning how they are checked:
none at all if it need not be given, a reference to a variable, or a value of the parameter's kind,
numbers between the bounds. A check objects to **all others and to none of these**, but for one
slip: a text that reads as `nan` is between no bounds, and the check lets it pass
(`check_exact`, `check_passes_nan`). Every parameter is checked for itself, in the order of the
schema, and by its own argument only, wherever that stands.
-/

set_option autoImplicit false

namespace Flowgraph.Activity

open Decimal

/-! ### What is accepted -/

/-- Whether an argument counts as not given: there is none, or it is null or white space. -/
def Missing (argument : Option Json.Value) : Prop :=
  argument = none ∨ argument = some .null ∨
    ∃ s : String, argument = some (.string s) ∧ ∀ c ∈ s.toList, Text.isBlank c = true

/-- The number that a value is, or that its text reads as. -/
inductive Denotes : Json.Value → Reading → Prop where
  | number (n : Json.Number) : Denotes (.number n) (.finite n.toBinary64)
  | text {s : String} {v : Reading} (h : read? (Text.trim s).toList = some v) :
      Denotes (.string s) v

/-- A number is at least as great as a bound. -/
def AtLeast (bound : Binary64) : Reading → Prop
  | .finite v => bound.signedUnits ≤ v.signedUnits
  | .infinite negative => negative = false
  | .notANumber => False

/-- A number is at most as great as a bound. -/
def AtMost (bound : Binary64) : Reading → Prop
  | .finite v => v.signedUnits ≤ bound.signedUnits
  | .infinite negative => negative = true
  | .notANumber => False

/-- The values of a kind. -/
def Kind.Admits (kind : Kind) (value : Json.Value) : Prop :=
  match kind with
  | .string _ _ => ∃ s, value = .string s
  | .number min max _ => ∃ v, Denotes value v ∧ (∀ bound ∈ min, AtLeast bound v) ∧
      ∀ bound ∈ max, AtMost bound v
  | .boolean => ∃ b, value = .bool b
  | .enumeration options => ∃ entry ∈ options, value = .string entry.value
  | .object => (∃ members, value = .object members) ∨ ∃ items, value = .array items

/-- Whether a value is the text of a reference to a variable. -/
def IsReference (value : Json.Value) : Prop :=
  ∃ name : String, value = .string (Variable.mention name) ∧ '}' ∉ name.toList

/-- Whether an argument is accepted for a parameter. -/
def Parameter.Accepts (p : Parameter) (argument : Option Json.Value) : Prop :=
  Missing argument ∧ (p.required = false ∨ p.default.isSome = true) ∨
    ∃ value, argument = some value ∧ ¬ Missing argument ∧
      (IsReference value ∨ p.kind.Admits value)

/-- Whether a kind is that of numbers with a bound. -/
def Kind.Bounded (kind : Kind) : Prop :=
  ∃ min max step, kind = .number min max step ∧ (min.isSome = true ∨ max.isSome = true)

/-- Whether an argument is the word `nan`, in any case, with or without a sign and white space. -/
def ReadsAsNaN (argument : Option Json.Value) : Prop :=
  ∃ s : String, argument = some (.string s) ∧
    String.ofList ((splitSign (Text.trim s).toList).2.map Char.toLower) = "nan"

/-! ### Arguments that are not given -/

variable {value : Json.Value} {argument : Option Json.Value}

theorem missing_some : Missing (some value) ↔ isBlank value = true := by
  cases value <;> simp [isBlank, Missing, Text.blank]

/-- A check looks at arguments that are given, -/
theorem filter_of_given (h : ¬ Missing (some value)) :
    (some value).filter (!isBlank ·) = some value := by
  rw [missing_some, Bool.not_eq_true] at h
  simp [h]

/-- and not at others. -/
theorem filter_of_missing (h : Missing argument) : argument.filter (!isBlank ·) = none := by
  cases argument with
  | none => rfl
  | some value => simp [missing_some.1 h]

/-! ### Values of a kind -/

theorem denotes_iff {v : Reading} : Denotes value v ↔ number? value = some v := by
  constructor
  · rintro (n | h)
    · rfl
    · exact h
  · intro h
    cases value with
    | number n =>
      obtain rfl := Option.some.inj h
      exact .number n
    | string s => exact .text h
    | _ => cases h

/-- What is not below a bound is at least as great, if it is a number. -/
theorem below_eq_false_iff {bound : Binary64} {v : Reading} :
    v.below bound = false ↔ AtLeast bound v ∨ v = .notANumber := by
  cases v with
  | finite v => simp [Reading.below, AtLeast, Bool.eq_false_iff, Binary64.lt_iff,
      Binary64.key_lt_iff]
  | infinite negative => simp [Reading.below, AtLeast]
  | notANumber => simp [Reading.below, AtLeast]

theorem above_eq_false_iff {bound : Binary64} {v : Reading} :
    v.above bound = false ↔ AtMost bound v ∨ v = .notANumber := by
  cases v with
  | finite v => simp [Reading.above, AtMost, Bool.eq_false_iff, Binary64.lt_iff,
      Binary64.key_lt_iff]
  | infinite negative => simp [Reading.above, AtMost]
  | notANumber => simp [Reading.above, AtMost]

/-- A bound that is given objects to all numbers on its other side. -/
theorem filter_below_eq_nil_iff {min : Option Binary64} {v : Reading} :
    (min.filter v.below).toList = [] ↔
      (∀ bound ∈ min, AtLeast bound v) ∨ min.isSome = true ∧ v = .notANumber := by
  cases min with
  | none => simp
  | some bound => simp [below_eq_false_iff]

theorem filter_above_eq_nil_iff {max : Option Binary64} {v : Reading} :
    (max.filter v.above).toList = [] ↔
      (∀ bound ∈ max, AtMost bound v) ∨ max.isSome = true ∧ v = .notANumber := by
  cases max with
  | none => simp
  | some bound => simp [above_eq_false_iff]

/-- The word `nan` is the only text that reads as no number. -/
theorem read?_eq_notANumber_iff {text : List Char} : read? text = some .notANumber ↔
    String.ofList ((splitSign text).2.map Char.toLower) = "nan" := by
  unfold read?
  dsimp only
  split
  case isTrue hinfinite =>
    refine iff_of_false nofun fun hnan => ?_
    rw [hnan] at hinfinite
    revert hinfinite
    decide
  case isFalse =>
    split
    case isTrue hnan => exact iff_of_true rfl hnan
    case isFalse hnan =>
      refine iff_of_false (fun h => ?_) hnan
      obtain ⟨d, -, hd⟩ := Option.map_eq_some_iff.1 h
      split at hd <;> cases hd

theorem readsAsNaN_iff : ReadsAsNaN argument ↔ argument.bind number? = some .notANumber := by
  match argument with
  | none => simp [ReadsAsNaN]
  | some (.string s) =>
    simp only [Option.bind_some, number?, read?_eq_notANumber_iff, ReadsAsNaN, Option.some.injEq,
      Json.Value.string.injEq, exists_eq_left']
  | some (.number n) => simp [number?, ReadsAsNaN]
  | some .null | some (.bool _) | some (.array _) | some (.object _) => simp [number?, ReadsAsNaN]

/-- A text that reads as a number is not blank. -/
theorem not_missing_of_read {s : String} {v : Reading}
    (h : read? (Text.trim s).toList = some v) : ¬ Missing (some (.string s)) := by
  intro hmissing
  have hblank : ∀ c ∈ s.toList, Text.isBlank c = true := by
    simpa [Missing] using hmissing
  have hstart : Text.trimStart s.toList = [] := List.dropWhile_eq_nil_iff.2 hblank
  have hempty : (Text.trim s).toList = [] := by
    rw [Text.trim, hstart]
    rfl
  rw [hempty] at h
  cases h

theorem Kind.bounded_number {min max step : Option Binary64} :
    (Kind.number min max step).Bounded ↔ min.isSome = true ∨ max.isSome = true := by
  simp [Kind.Bounded]

/-- **A kind objects to the values that are not its own**, and to none of its own. What is no
number is within bounds only because no bound objects to it. -/
theorem Kind.objections_eq_nil_iff {kind : Kind} : kind.objections value = [] ↔
    kind.Admits value ∨ kind.Bounded ∧ ReadsAsNaN (some value) := by
  cases kind with
  | number min max step =>
    simp only [Kind.objections, Kind.Admits, denotes_iff, readsAsNaN_iff, Option.bind_some]
    cases number? value with
    | none => simp
    | some v =>
      simp only [List.append_eq_nil_iff, List.map_eq_nil_iff, filter_below_eq_nil_iff,
        filter_above_eq_nil_iff, Option.some.injEq, exists_eq_left', Kind.bounded_number]
      by_cases hnan : v = .notANumber
      · subst hnan
        simp only [AtLeast, AtMost]
        cases min <;> cases max <;> simp
      · simp only [hnan, and_false, or_false]
  | string placeholder multiline =>
    cases value <;> simp [Kind.objections, Kind.Admits, Kind.Bounded, Json.Value.string?]
  | boolean => cases value <;> simp [Kind.objections, Kind.Admits, Kind.Bounded]
  | enumeration options =>
    cases value with
    | string s =>
      have hmem : (∃ entry ∈ options, entry.value = s) ↔ ∃ entry ∈ options, s = entry.value :=
        exists_congr fun entry => and_congr_right fun _ => eq_comm
      simp [Kind.objections, Kind.Admits, Kind.Bounded, Json.Value.string?, hmem]
    | _ => simp [Kind.objections, Kind.Admits, Kind.Bounded, Json.Value.string?]
  | object => cases value <;> simp [Kind.objections, Kind.Admits, Kind.Bounded]

/-! ### One parameter -/

theorem isReference_iff : IsReference value ↔ (Variable.reference? value).isSome = true := by
  rw [Option.isSome_iff_exists]
  exact exists_congr fun name => Variable.reference?_eq_some_iff.symm

theorem Parameter.objections_of_missing {p : Parameter} (h : Missing argument) :
    p.objections argument = [] ↔ p.required = false ∨ p.default.isSome = true := by
  unfold Parameter.objections
  rw [filter_of_missing h]
  cases p.required <;> cases p.default <;> simp

theorem Parameter.objections_of_given {p : Parameter} (h : ¬ Missing (some value)) :
    p.objections (some value) = [] ↔
      IsReference value ∨ p.kind.Admits value ∨ p.kind.Bounded ∧ ReadsAsNaN (some value) := by
  unfold Parameter.objections
  rw [filter_of_given h, isReference_iff, ← Kind.objections_eq_nil_iff]
  dsimp only
  split <;> simp [*]

/-- There is no objection to an argument exactly if it is accepted, or reads as `nan` where numbers
have a bound. -/
theorem Parameter.objections_eq_nil_iff {p : Parameter} : p.objections argument = [] ↔
    p.Accepts argument ∨ p.kind.Bounded ∧ ReadsAsNaN argument := by
  by_cases hmissing : Missing argument
  · have hnan : ¬ ReadsAsNaN argument := by
      rintro ⟨s, rfl, hnan⟩
      exact not_missing_of_read (read?_eq_notANumber_iff.2 hnan) hmissing
    rw [objections_of_missing hmissing]
    simp [Parameter.Accepts, hmissing, hnan]
  · cases argument with
    | none => exact absurd (Or.inl rfl) hmissing
    | some value =>
      rw [objections_of_given hmissing]
      simp [Parameter.Accepts, hmissing, or_assoc]

/-- A reference is not the word `nan`. -/
theorem not_readsAsNaN_of_isReference (h : IsReference value) : ¬ ReadsAsNaN (some value) := by
  obtain ⟨name, rfl, -⟩ := h
  rintro ⟨s, hs, hnan⟩
  obtain rfl := Json.Value.string.inj (Option.some.inj hs)
  have hstart : Text.trimStart (Variable.mention name).toList = (Variable.mention name).toList := by
    rw [Variable.toList_mention]
    exact List.dropWhile_cons_of_neg (by decide)
  have hend : Text.trimEnd (Variable.mention name).toList = (Variable.mention name).toList := by
    rw [Variable.toList_mention, ← List.cons_append, ← List.cons_append, Text.trimEnd,
      List.reverse_concat, List.dropWhile_cons_of_neg (by decide), ← List.reverse_concat,
      List.reverse_reverse]
  rw [Text.trim, hstart, hend, String.ofList_toList, Variable.toList_mention] at hnan
  have hfirst := congrArg (·.toList.head?) hnan
  simp [splitSign] at hfirst

/-- What reads as `nan` is not accepted where numbers have a bound. -/
theorem Parameter.not_accepts_of_readsAsNaN {p : Parameter} (hbounded : p.kind.Bounded)
    (hnan : ReadsAsNaN argument) : ¬ p.Accepts argument := by
  have hread := readsAsNaN_iff.1 hnan
  rintro (⟨hmissing, -⟩ | ⟨value, rfl, -, hreference | hadmits⟩)
  · obtain ⟨s, rfl, hword⟩ := hnan
    exact not_missing_of_read (read?_eq_notANumber_iff.2 hword) hmissing
  · exact not_readsAsNaN_of_isReference hreference hnan
  · obtain ⟨min, max, step, hkind, hbound⟩ := hbounded
    rw [hkind] at hadmits
    obtain ⟨v, hdenotes, hmin, hmax⟩ := hadmits
    obtain rfl : v = .notANumber := Option.some.inj ((denotes_iff.1 hdenotes).symm.trans hread)
    rcases hbound with hbound | hbound
    · obtain ⟨bound, hbound⟩ := Option.isSome_iff_exists.1 hbound
      exact hmin bound hbound
    · obtain ⟨bound, hbound⟩ := Option.isSome_iff_exists.1 hbound
      exact hmax bound hbound

/-! ### All parameters -/

/-- Of a list with distinct names only the item with a name contributes to what is gathered under
the name. -/
theorem flatMap_of_nodup {items : List Parameter} (hnames : (items.map (·.name)).Nodup)
    {p : Parameter} (hp : p ∈ items) (f : Parameter → List ArgumentIssue) :
    (items.flatMap fun q => if q.name = p.name then f q else []) = f p := by
  induction items with
  | nil => cases hp
  | cons q rest ih =>
    obtain ⟨hq, hrest⟩ := List.nodup_cons.1 hnames
    rw [List.flatMap_cons]
    rcases List.mem_cons.1 hp with rfl | hp
    · have hnone : (rest.flatMap fun q => if q.name = p.name then f q else []) = [] :=
        List.flatMap_eq_nil_iff.2 fun q hmem => if_neg fun hname =>
          hq (List.mem_map.2 ⟨q, hmem, hname⟩)
      rw [if_pos rfl, hnone, List.append_nil]
    · have hne : q.name ≠ p.name := fun hname => hq (List.mem_map.2 ⟨p, hp, hname.symm⟩)
      rw [if_neg hne, List.nil_append, ih hrest hp]

/-- What is found about an argument for a parameter. -/
def Parameter.issues (p : Parameter) (arguments : Arguments) : List ArgumentIssue :=
  (p.objections (Assoc.get? p.name arguments)).map (⟨p.name, ·⟩)

variable {s : Schema} {arguments others : Arguments} {p : Parameter}

theorem Schema.check_eq (s : Schema) (arguments : Arguments) :
    s.check arguments = s.parameters.flatMap (·.issues arguments) := rfl

/-- What is found under the name of a parameter was found about it. -/
theorem Parameter.filter_issues (p q : Parameter) (arguments : Arguments) :
    (q.issues arguments).filter (·.parameter = p.name) =
      if q.name = p.name then q.issues arguments else [] := by
  unfold Parameter.issues
  rw [List.filter_map]
  split <;> simp [Function.comp_def, *]

theorem Parameter.issues_eq_nil_iff : p.issues arguments = [] ↔
    p.Accepts (Assoc.get? p.name arguments) ∨
      p.kind.Bounded ∧ ReadsAsNaN (Assoc.get? p.name arguments) := by
  rw [Parameter.issues, List.map_eq_nil_iff, Parameter.objections_eq_nil_iff]

/-- Where names are distinct, what is found under the name of a parameter is all that was found
about it. -/
theorem Schema.filter_check (hnames : (s.parameters.map (·.name)).Nodup) (hp : p ∈ s.parameters)
    (arguments : Arguments) :
    (s.check arguments).filter (·.parameter = p.name) = p.issues arguments := by
  rw [check_eq, List.filter_flatMap]
  simp only [Parameter.filter_issues]
  exact flatMap_of_nodup hnames hp (·.issues arguments)

/-- A check depends on the arguments for the parameters only. -/
theorem Schema.check_congr
    (h : ∀ p ∈ s.parameters, Assoc.get? p.name others = Assoc.get? p.name arguments) :
    s.check others = s.check arguments := by
  rw [check_eq, check_eq]
  refine List.flatMap_congr fun p hp => ?_
  rw [Parameter.issues, Parameter.issues, h p hp]

/-- **A check objects to just the arguments that are not accepted.** Where the parameters of a schema
have distinct names, nothing is found under the name of a parameter exactly if its argument is
accepted, or if numbers have a bound there and the argument reads as `nan`. What is found is what is
found about the first parameter, then about the second one and so on. Arguments for no parameter,
and the order of the arguments, do not matter. -/
theorem check_exact (s : Schema) (hnames : (s.parameters.map (·.name)).Nodup)
    (arguments : Arguments) :
    (∀ p ∈ s.parameters, (s.check arguments).filter (·.parameter = p.name) = [] ↔
      p.Accepts (Assoc.get? p.name arguments) ∨
        p.kind.Bounded ∧ ReadsAsNaN (Assoc.get? p.name arguments)) ∧
    (s.check arguments = s.parameters.flatMap fun p =>
      (s.check arguments).filter (·.parameter = p.name)) ∧
    (∀ others : Arguments,
      (∀ p ∈ s.parameters, Assoc.get? p.name others = Assoc.get? p.name arguments) →
      s.check others = s.check arguments) ∧
    ((arguments.map (·.1)).Nodup → ∀ others : Arguments, others.Perm arguments →
      s.check others = s.check arguments) := by
  refine ⟨fun p hp => ?_, ?_, fun others h => Schema.check_congr h, fun hkeys others hperm => ?_⟩
  · rw [Schema.filter_check hnames hp, Parameter.issues_eq_nil_iff]
  · rw [Schema.check_eq]
    refine List.flatMap_congr fun p hp => ?_
    rw [← Schema.check_eq, Schema.filter_check hnames hp]
  · exact Schema.check_congr fun p _ => Assoc.get?_perm hkeys hperm p.name

/-- The parameters of a message. -/
def messageForm : Schema where
  name := "message"
  label := "Message"
  parameters :=
    [ { name := "to", label := "Recipient", kind := .string none false, required := true },
      { name := "delay", label := "Delay", kind := .number (Binary64.ofInt? 0) none none },
      { name := "level", label := "Level", kind := .enumeration [.plain "low", .plain "high"] },
      { name := "parts", label := "Parts", kind := .object, required := true } ]

/-- Arguments for it, and one that it does not know. -/
def filledIn : Arguments :=
  [ ("level", .string "urgent"), ("delay", .string " 1.5 "), ("to", .string "$\x7buser\x7d"),
    ("colour", .string "red"), ("parts", .array []) ]

/-- Just the level is objected to, whatever the order of the arguments is. -/
theorem check_exact_message :
    (messageForm.parameters.map (·.name)).Nodup ∧ (filledIn.map (·.1)).Nodup ∧
      messageForm.check filledIn.reverse = messageForm.check filledIn ∧
      (∀ p ∈ messageForm.parameters, p.name ≠ "level" → p.Accepts (Assoc.get? p.name filledIn)) ∧
      ∀ p ∈ messageForm.parameters, p.name = "level" →
        ¬ p.Accepts (Assoc.get? p.name filledIn) := by
  have hnames : (messageForm.parameters.map (·.name)).Nodup := by decide
  have hkeys : (filledIn.map (·.1)).Nodup := by decide
  obtain ⟨hexact, -, -, hperm⟩ := check_exact messageForm hnames filledIn
  have hcheck : messageForm.check filledIn = [⟨"level", .notOption ["low", "high"]⟩] := by
    decide +kernel
  have hwords : ∀ p ∈ messageForm.parameters,
      (Assoc.get? p.name filledIn).bind number? ≠ some .notANumber := by decide +kernel
  refine ⟨hnames, hkeys, hperm hkeys _ filledIn.reverse_perm, fun p hp hother => ?_,
    fun p hp hlevel haccepts => ?_⟩
  · have hnone : (messageForm.check filledIn).filter (·.parameter = p.name) = [] := by
      rw [hcheck]
      simp [Ne.symm hother]
    exact ((hexact p hp).1 hnone).resolve_right fun hnan =>
      hwords p hp (readsAsNaN_iff.1 hnan.2)
  · have hnone := (hexact p hp).2 (Or.inl haccepts)
    rw [hcheck, hlevel] at hnone
    cases hnone

/-- The text `NaN` is between no bounds, and is not objected to. -/
theorem check_passes_nan :
    Builtin.waitSchema.check [("seconds", .string "NaN")] = [] ∧
      ∀ p ∈ Builtin.waitSchema.parameters,
        ¬ p.Accepts (Assoc.get? p.name [("seconds", .string "NaN")]) := by
  refine ⟨by decide +kernel, fun p hp => ?_⟩
  obtain rfl := List.mem_singleton.1 hp
  exact Parameter.not_accepts_of_readsAsNaN (Kind.bounded_number.2 (Or.inl (by decide +kernel)))
    ⟨"NaN", rfl, by decide +kernel⟩

end Flowgraph.Activity
