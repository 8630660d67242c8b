import Flowgraph.Proofs.Activity.Checking
import Flowgraph.Proofs.Activity.Registration

/-!
# Arguments that have passed the check

The schemas and the activities that come along describe twice which arguments are taken. They agree
on arguments without references: what the schema of `sendEmail`, `transformData`, `wait`,
`logMessage` or `echo` has no objection to, the activity succeeds with, in a direct call and with
the arguments as a run resolves them (`literals_succeed`). The exception is a duration that is given
as a blank. The check takes it for one that is left out; waiting takes it for a duration, which it
is not, and fails (`blank_duration_fails`).
-/

set_option autoImplicit false

namespace Flowgraph.Activity

open Run

variable {registry : Registry} {schema : Schema} {arguments : Arguments} {name : String}

/-! ### What a check tells about the arguments -/

theorem accepts_of_check (hcheck : schema.check arguments = []) {p : Parameter}
    (hp : p ∈ schema.parameters) : p.Accepts (Assoc.get? p.name arguments) ∨
      p.kind.Bounded ∧ ReadsAsNaN (Assoc.get? p.name arguments) :=
  Parameter.issues_eq_nil_iff.1 (List.flatMap_eq_nil_iff.1 hcheck p hp)

/-- Arguments none of which refers to a variable. -/
def Literal (arguments : Arguments) : Prop := ∀ e ∈ arguments, ¬ IsReference e.2

theorem Literal.get? (h : Literal arguments) {value : Json.Value}
    (hvalue : Assoc.get? name arguments = some value) : ¬ IsReference value :=
  h _ (Assoc.mem_of_get? hvalue)

/-- What a run passes to the activity is what is written. -/
theorem Literal.get?_resolve (h : Literal arguments) (hkeys : (arguments.map (·.1)).Nodup)
    (store : Store) (key : String) :
    Assoc.get? key (arguments.resolve store) = Assoc.get? key arguments := by
  refine Arguments.get?_resolve_of_literal hkeys (fun e he => ?_) store key
  have hnot := h e he
  rwa [isReference_iff, Option.not_isSome_iff_eq_none] at hnot

/-! ### What the activities do with them -/

/-- Whether an attempt is a success with data. -/
def Attempt.Succeeds (attempt : Attempt) : Prop :=
  ∃ data, attempt.conclusion = .result (.ok data)

/-- The reply to a call of an activity that succeeds. -/
theorem invoker_of_succeeds {handler : Handler} {own : Option Schema} {earlier : List Invocation}
    {given : Store} (h : Assoc.get? name registry = some ⟨handler, own⟩)
    (hsucceeds : (handler earlier given).Succeeds) :
    ∃ delay data, registry.invoker earlier ⟨name, given⟩ = ⟨delay, .result (.ok data)⟩ := by
  obtain ⟨data, hdata⟩ := hsucceeds
  refine ⟨(handler earlier given).delay, data, ?_⟩
  rw [invoker_of_get? h, hdata]
  rfl

namespace Builtin

/-- Whether a registry has under a name the activity that comes along. -/
def Provides (registry : Registry) (o : Options) (name : String) : Prop :=
  Assoc.get? name registry = Assoc.get? name (register [] o)

theorem provides_register (r : Registry) (o : Options)
    (hname : name ∈ (register [] o).names) : Provides (register r o) o name := by
  have hnames : (register [] o).names =
      ["sendEmail", "httpRequest", "transformData", "wait", "logMessage", "echo"] := rfl
  rw [hnames] at hname
  simp only [List.mem_cons, List.not_mem_nil, or_false] at hname
  simp only [Provides, register, Registry.register, Assoc.get?_set]
  rcases hname with rfl | rfl | rfl | rfl | rfl | rfl <;> rfl

/-- The activity that comes along has the schema that comes along. -/
theorem Provides.entry {o : Options} {handler : Handler} {own : Schema}
    (hprovides : Provides registry o name) (hschema : registry.schema? name = some schema)
    (h : Assoc.get? name (register [] o) = some ⟨handler, some own⟩) :
    Assoc.get? name registry = some ⟨handler, some own⟩ ∧ own = schema := by
  have hentry := hprovides.trans h
  rw [Registry.schema?, hentry] at hschema
  exact ⟨hentry, Option.some.inj hschema⟩

variable {o : Options} {earlier : List Invocation} {given : Store}

/-- The operation that is one of the schema is known. -/
theorem transformData_succeeds
    (hoperation : ∃ key ∈ operations.map (·.1),
      Assoc.get? "operation" given = some (.string key)) :
    (transformData earlier given).Succeeds := by
  obtain ⟨key, hkey, hgiven⟩ := hoperation
  obtain ⟨entry, hentry, rfl⟩ := List.mem_map.1 hkey
  have hfound : Assoc.get? entry.1 operations = some entry.2 :=
    Assoc.get?_of_mem (by decide) hentry
  have htext : ((Assoc.get? "operation" given).map textOf).getD "undefined" = entry.1 := by
    rw [hgiven]
    rfl
  unfold transformData
  simp only [htext, hfound]
  exact ⟨_, rfl⟩

/-- A duration is read just as the check reads it. -/
theorem seconds?_eq {value : Json.Value} {x : Binary64}
    (h : number? value = some (.finite x)) : seconds? value = some x := by
  cases value with
  | number n =>
    obtain rfl := Decimal.Reading.finite.inj (Option.some.inj h)
    rfl
  | string s =>
    have hread : Decimal.read? (Text.trim s).toList = some (.finite x) := h
    simp only [seconds?, hread]
  | _ => cases h

/-- An hour is not too long. -/
theorem nanoseconds?_isSome {x : Binary64} (hlow : 0 ≤ x.signedUnits)
    (hhigh : x.signedUnits ≤ 3600 * Binary64.unitsPerOne) : (nanoseconds? x).isSome = true := by
  have hzero : 0 < x.units ↔ 0 < x.magnitude :=
    Binary64.units_lt_iff (x := Binary64.zero)
  unfold Binary64.signedUnits at hlow hhigh
  have hsign : ¬ (x.negative = true ∧ x.magnitude ≠ 0) := by
    rintro ⟨hnegative, hne⟩
    rw [if_pos hnegative] at hlow
    omega
  have hunits : x.units ≤ 3600 * Binary64.unitsPerOne := by
    split at hhigh <;> split at hlow <;> omega
  have hnanos : Binary64.roundDiv (x.units * 1000000000) Binary64.unitsPerOne ≤
      3600 * 1000000000 := by
    refine Binary64.roundDiv_le Binary64.unitsPerOne_pos ?_
    calc x.units * 1000000000
      _ ≤ 3600 * Binary64.unitsPerOne * 1000000000 := Nat.mul_le_mul_right _ hunits
      _ = 3600 * 1000000000 * Binary64.unitsPerOne := Nat.mul_right_comm ..
  have hlimit : Nat.pow 2 64 = 18446744073709551616 := rfl
  unfold nanoseconds?
  dsimp only
  rw [if_neg (not_or.2 ⟨hsign, by omega⟩)]
  rfl

theorem wait_succeeds
    (h : ((seconds? ((Assoc.get? "seconds" given).getD (.ofInt 1))).bind nanoseconds?).isSome =
      true) : (wait o earlier given).Succeeds := by
  obtain ⟨nanos, hnanos⟩ := Option.isSome_iff_exists.1 h
  unfold wait
  dsimp only
  rw [hnanos]
  exact ⟨_, rfl⟩

/-- The bounds of the schema are bounds of the duration. -/
theorem seconds?_of_admits {p : Parameter} (hp : p ∈ waitSchema.parameters) {value : Json.Value}
    (h : p.kind.Admits value) : ((seconds? value).bind nanoseconds?).isSome = true := by
  obtain rfl := List.mem_singleton.1 hp
  obtain ⟨v, hdenotes, hmin, hmax⟩ := h
  obtain ⟨zero, hzero⟩ := Option.isSome_iff_exists.1
    (Binary64.ofInt?_isSome (n := 0) (by decide))
  obtain ⟨hour, hhour⟩ := Option.isSome_iff_exists.1
    (Binary64.ofInt?_isSome (n := 3600) (by decide))
  have hlow := hmin zero hzero
  have hhigh := hmax hour hhour
  cases v with
  | finite x =>
    have hlow : zero.signedUnits ≤ x.signedUnits := hlow
    have hhigh : x.signedUnits ≤ hour.signedUnits := hhigh
    rw [Binary64.signedUnits_of_ofInt? hzero, Binary64.roundedInt_of_le (by decide),
      Int.zero_mul] at hlow
    rw [Binary64.signedUnits_of_ofInt? hhour, Binary64.roundedInt_of_le (by decide)] at hhigh
    rw [seconds?_eq (denotes_iff.1 hdenotes), Option.bind_some]
    exact nanoseconds?_isSome hlow hhigh
  | infinite negative =>
    cases negative
    · cases hhigh
    · cases hlow
  | notANumber => exact hlow.elim

/-- What counts as not given is no duration. -/
theorem seconds?_of_missing {value : Json.Value} (h : Missing (some value)) :
    seconds? value = none := by
  cases value with
  | string s =>
    have hread : Decimal.read? (Text.trim s).toList = none :=
      Option.eq_none_iff_forall_ne_some.2 fun v hv => not_missing_of_read hv h
    simp only [seconds?, hread]
  | number n => simp [Missing] at h
  | _ => rfl

theorem wait_of_missing {requested : Json.Value}
    (hgiven : Assoc.get? "seconds" given = some requested) (h : Missing (some requested)) :
    wait o earlier given = { conclusion := .error ("Invalid duration: " ++ requested.text) } := by
  simp [wait, hgiven, seconds?_of_missing h]

/-! ### Agreement -/

/-- Whether the duration is given as a blank: null, or a text of white space. -/
def BlankDuration (arguments : Arguments) : Prop :=
  ∃ value, Assoc.get? "seconds" arguments = some value ∧ Missing (some value)

theorem transformData_of_check (hliteral : Literal arguments)
    (hcheck : transformDataSchema.check arguments = [])
    (hgiven : ∀ key, Assoc.get? key given = Assoc.get? key arguments) :
    (transformData earlier given).Succeeds := by
  let p := optionParameter "operation" "Operation" (operations.map (·.1)) none
    "Transformation to apply"
  have hp : p ∈ transformDataSchema.parameters := List.mem_cons_of_mem _ (List.mem_cons_self ..)
  rcases accepts_of_check hcheck hp with (⟨-, hoptional⟩ | haccepts) | ⟨hbounded, -⟩
  · rcases hoptional with hoptional | hoptional <;> cases hoptional
  · obtain ⟨value, hvalue, -, hadmits⟩ := haccepts
    obtain ⟨entry, hentry, rfl⟩ := hadmits.resolve_left (hliteral.get? hvalue)
    obtain ⟨key, hkey, rfl⟩ := List.mem_map.1 hentry
    exact transformData_succeeds ⟨key, hkey, (hgiven _).trans hvalue⟩
  · obtain ⟨min, max, step, hkind, -⟩ := hbounded
    cases hkind

theorem wait_of_check (hliteral : Literal arguments) (hcheck : waitSchema.check arguments = [])
    (hblank : ¬ BlankDuration arguments)
    (hnan : ¬ ReadsAsNaN (Assoc.get? "seconds" arguments))
    (hgiven : ∀ key, Assoc.get? key given = Assoc.get? key arguments) :
    (wait o earlier given).Succeeds := by
  refine wait_succeeds ?_
  rw [hgiven]
  cases hvalue : Assoc.get? "seconds" arguments with
  | none => decide +kernel
  | some value =>
    have haccepts := (accepts_of_check hcheck (List.mem_singleton_self _)).resolve_right
      fun h => hnan h.2
    rcases haccepts with ⟨hmissing, -⟩ | ⟨value', hvalue', -, hadmits⟩
    · exact absurd ⟨value, hvalue, hvalue ▸ hmissing⟩ hblank
    · obtain rfl := Option.some.inj (hvalue.symm.trans hvalue')
      exact seconds?_of_admits (List.mem_singleton_self _)
        (hadmits.resolve_left (hliteral.get? hvalue))

/-- **What the check has no objection to succeeds.** An activity that comes along is called with
arguments that refer to no variables and that its schema has no objection to. Then it succeeds,
unless it waits for a duration that is a blank or reads as `nan`. A blank is refused as a
duration. -/
theorem literals_succeed
    (hname : name ∈ ["sendEmail", "transformData", "wait", "logMessage", "echo"])
    (hprovides : Provides registry o name) (hschema : registry.schema? name = some schema)
    (hliteral : Literal arguments) (hcheck : schema.check arguments = [])
    (earlier : List Invocation) (given : Store)
    (hgiven : ∀ key, Assoc.get? key given = Assoc.get? key arguments) :
    ((name = "wait" → ¬ BlankDuration arguments ∧
        ¬ ReadsAsNaN (Assoc.get? "seconds" arguments)) →
      ∃ delay data, registry.invoker earlier ⟨name, given⟩ = ⟨delay, .result (.ok data)⟩) ∧
    (name = "wait" → ∀ requested, Assoc.get? "seconds" arguments = some requested →
      Missing (some requested) → registry.invoker earlier ⟨name, given⟩ =
        ⟨0, .result (.failure ("Invalid duration: " ++ requested.text))⟩) := by
  simp only [List.mem_cons, List.not_mem_nil, or_false] at hname
  rcases hname with rfl | rfl | rfl | rfl | rfl
  · obtain ⟨hentry, -⟩ := hprovides.entry hschema rfl
    exact ⟨fun _ => invoker_of_succeeds hentry ⟨_, rfl⟩, nofun⟩
  · obtain ⟨hentry, rfl⟩ := hprovides.entry hschema rfl
    exact ⟨fun _ => invoker_of_succeeds hentry (transformData_of_check hliteral hcheck hgiven),
      nofun⟩
  · obtain ⟨hentry, rfl⟩ := hprovides.entry hschema rfl
    refine ⟨fun h => ?_, fun _ requested hrequested hmissing => ?_⟩
    · obtain ⟨hblank, hnan⟩ := h rfl
      exact invoker_of_succeeds hentry (wait_of_check hliteral hcheck hblank hnan hgiven)
    · rw [invoker_of_get? hentry, wait_of_missing ((hgiven _).trans hrequested) hmissing]
      rfl
  · obtain ⟨hentry, -⟩ := hprovides.entry hschema rfl
    exact ⟨fun _ => invoker_of_succeeds hentry ⟨_, rfl⟩, nofun⟩
  · obtain ⟨hentry, -⟩ := hprovides.entry hschema rfl
    exact ⟨fun _ => invoker_of_succeeds hentry ⟨_, rfl⟩, nofun⟩

/-- A duration typed as text, and an argument that the schema does not know. -/
def nap : Arguments := [("seconds", .string " 1.5e0 "), ("reason", .string "$\x7btiredness")]

/-- A text that is to be turned round. -/
def turning : Arguments := [("input", .string "Abc"), ("operation", .string "reverse")]

example : transformDataSchema.check turning = [] ∧
    (register [] {}).invoker [] ⟨"transformData", turning⟩ = ⟨0, .result {
      success := true, data := some (.object [("transformed", .string "cbA")]) }⟩ := by
  decide +kernel

/-- Waiting for it succeeds in a run; waiting for a tabulator fails. -/
theorem literals_succeed_nap :
    (∃ delay data, (register [] {}).invoker [] ⟨"wait", nap.resolve [("seconds", .null)]⟩ =
      ⟨delay, .result (.ok data)⟩) ∧
    (register [] {}).invoker [] ⟨"wait", nap.resolve [("seconds", .null)]⟩ = ⟨1500, .result {
      success := true, data := some (.object [("waited", .string " 1.5e0 ")]) }⟩ ∧
    (register [] {}).invoker [] ⟨"wait", [("seconds", .string "\t")]⟩ =
      ⟨0, .result { success := false, error := some "Invalid duration: \"\\t\"" }⟩ := by
  have hprovides : Provides (register [] {}) {} "wait" :=
    provides_register [] {} (by decide)
  have hliteral {arguments : Arguments}
      (h : ∀ e ∈ arguments, (Variable.reference? e.2).isSome = false) : Literal arguments :=
    fun e he hreference => by
      have hnone := h e he
      rw [isReference_iff.1 hreference] at hnone
      cases hnone
  have hnap : Literal nap := hliteral (by decide +kernel)
  have htabulator : Literal [("seconds", .string "\t")] := hliteral (by decide +kernel)
  have hkeys : (nap.map (·.1)).Nodup := by decide
  have hblank : ¬ BlankDuration nap := by
    rintro ⟨value, hvalue, hmissing⟩
    obtain rfl := Option.some.inj hvalue
    exact absurd (missing_some.1 hmissing) (by decide +kernel)
  have hnan : ¬ ReadsAsNaN (Assoc.get? "seconds" nap) := by
    rw [readsAsNaN_iff]
    decide +kernel
  refine ⟨?_, by decide +kernel, ?_⟩
  · exact (literals_succeed (by decide) hprovides rfl hnap (by decide +kernel) [] _
      (hnap.get?_resolve hkeys _)).1 fun _ => ⟨hblank, hnan⟩
  · exact (literals_succeed (by decide) hprovides rfl htabulator (by decide +kernel) [] _
      fun _ => rfl).2 rfl _ rfl (missing_some.2 (by decide +kernel))

/-- The check takes null for a duration that is left out, and waiting for it fails. -/
theorem blank_duration_fails :
    Literal [("seconds", .null)] ∧ (register [] {}).schema? "wait" = some waitSchema ∧
      waitSchema.check [("seconds", .null)] = [] ∧
      (register [] {}).invoker [] ⟨"wait", [("seconds", .null)]⟩ =
        ⟨0, .result (.failure "Invalid duration: null")⟩ := by
  refine ⟨fun e he => ?_, rfl, by decide +kernel, by decide +kernel⟩
  obtain rfl := List.mem_singleton.1 he
  exact nofun

end Builtin

end Flowgraph.Activity
