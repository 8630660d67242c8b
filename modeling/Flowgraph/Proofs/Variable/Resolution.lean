import Flowgraph.Proofs.Variable.Reference

/-!
# What arguments are resolved to

`StandsFor` says what an argument stands for without mentioning how arguments are resolved: itself,
or, if it refers to a variable, the value of the variable as it is, even if that is the text of a
reference again. Resolving arguments gives **these values under the names of the arguments and
nothing else** (`resolve_eq_iff`). So neither the order of the arguments matters nor a variable to
which none of them refers (`resolve_exact`).
-/

set_option autoImplicit false

namespace Flowgraph

namespace Variable

/-- Whether an argument is the text of a reference to a variable. -/
def Refers (argument : Json.Value) (name : String) : Prop :=
  argument = .string (mention name) ∧ '}' ∉ name.toList

/-- What an argument stands for among the variables: itself if it refers to none of them, and
otherwise the value that the variable has. -/
inductive StandsFor (store : Store) : Json.Value → Json.Value → Prop where
  | itself {argument : Json.Value} (h : ∀ name, ¬ Refers argument name) :
      StandsFor store argument argument
  | value {argument value : Json.Value} {name : String} (h : Refers argument name)
      (hvalue : Assoc.get? name store = some value) : StandsFor store argument value

variable {store other : Store} {argument value : Json.Value} {name : String}

theorem refers_iff : Refers argument name ↔ reference? argument = some name :=
  reference?_eq_some_iff.symm

theorem forall_not_refers_iff : (∀ name, ¬ Refers argument name) ↔ reference? argument = none := by
  rw [Option.eq_none_iff_forall_ne_some]
  exact forall_congr' fun name => not_congr refers_iff

/-- An argument stands for the value that it is replaced by. -/
theorem standsFor_iff : StandsFor store argument value ↔ value? store argument = some value := by
  constructor
  · intro h
    cases h with
    | itself h => simp only [value?, forall_not_refers_iff.1 h]
    | value h hvalue => simp only [value?, refers_iff.1 h, hvalue]
  · intro h
    unfold value? at h
    split at h
    · rename_i name hname
      exact .value (refers_iff.2 hname) h
    · rename_i hnone
      obtain rfl := Option.some.inj h
      exact .itself (forall_not_refers_iff.2 hnone)

/-- What an argument stands for depends on the variable that it refers to. -/
theorem StandsFor.congr
    (hsame : ∀ name, Refers argument name → Assoc.get? name other = Assoc.get? name store)
    (h : StandsFor store argument value) : StandsFor other argument value := by
  cases h with
  | itself h => exact .itself h
  | value h hvalue => exact .value h ((hsame _ h).trans hvalue)

/-- An argument stands for something unless it refers to a variable that is not set. -/
theorem exists_standsFor_iff : (∃ value, StandsFor store argument value) ↔
    (∀ name, ¬ Refers argument name) ∨
      ∃ name, Refers argument name ∧ Assoc.contains name store = true := by
  constructor
  · intro h
    obtain ⟨value, hvalue⟩ := h
    cases hvalue with
    | itself h => exact Or.inl h
    | value h hvalue => exact Or.inr ⟨_, h, by simp [Assoc.contains, hvalue]⟩
  · intro h
    rcases h with h | ⟨name, h, hset⟩
    · exact ⟨argument, .itself h⟩
    · obtain ⟨value, hvalue⟩ := Option.isSome_iff_exists.1 hset
      exact ⟨value, .value h hvalue⟩

end Variable

namespace Arguments

open Variable

/-- Whether some entries are what arguments stand for: each name once, in ascending order, with the
value that the argument of this name stands for. -/
structure ResolvesTo (arguments : Arguments) (store resolved : Store) : Prop where
  ascending : Assoc.Ascending resolved
  mem_iff : ∀ key value, (key, value) ∈ resolved ↔
    ∃ argument, (key, argument) ∈ arguments ∧ StandsFor store argument value

variable {arguments others : Arguments} {store other resolved : Store}

theorem ascending_resolve (arguments : Arguments) (store : Store) :
    Assoc.Ascending (arguments.resolve store) := by
  refine List.foldlRecOn arguments _ List.Pairwise.nil fun resolved h e _ => ?_
  obtain ⟨name, argument⟩ := e
  dsimp only
  cases value? store argument with
  | none => exact h
  | some value => exact h.insert

theorem mem_resolve (hkeys : (arguments.map (·.1)).Nodup) (key : String) (value : Json.Value) :
    (key, value) ∈ arguments.resolve store ↔
      ∃ argument, (key, argument) ∈ arguments ∧ StandsFor store argument value := by
  rw [← Assoc.get?_eq_some_iff (ascending_resolve arguments store).nodup_keys,
    get?_resolve hkeys, Option.bind_eq_some_iff]
  refine exists_congr fun argument => ?_
  rw [Assoc.get?_eq_some_iff hkeys, standsFor_iff]

/-- Arguments with distinct names are resolved to what they stand for. -/
theorem resolvesTo_resolve (hkeys : (arguments.map (·.1)).Nodup) (store : Store) :
    ResolvesTo arguments store (arguments.resolve store) :=
  ⟨ascending_resolve arguments store, mem_resolve hkeys⟩

/-- Arguments stand for one thing only. -/
theorem ResolvesTo.eq (h : ResolvesTo arguments store resolved)
    (h' : ResolvesTo arguments store other) : resolved = other :=
  h.ascending.ext_mem h'.ascending fun e => (h.mem_iff e.1 e.2).trans (h'.mem_iff e.1 e.2).symm

theorem resolve_eq_iff (hkeys : (arguments.map (·.1)).Nodup) :
    arguments.resolve store = resolved ↔ ResolvesTo arguments store resolved :=
  ⟨fun h => h ▸ resolvesTo_resolve hkeys store, fun h => (resolvesTo_resolve hkeys store).eq h⟩

/-- The order of the arguments has no part in what they stand for. -/
theorem ResolvesTo.perm (h : ResolvesTo arguments store resolved) (hperm : others.Perm arguments) :
    ResolvesTo others store resolved where
  ascending := h.ascending
  mem_iff key value := by
    rw [h.mem_iff]
    exact exists_congr fun argument => and_congr_left fun _ => hperm.mem_iff.symm

/-- Variables to which no argument refers have no part in it either. -/
theorem ResolvesTo.congr (h : ResolvesTo arguments store resolved)
    (hsame : ∀ e ∈ arguments, ∀ name, Refers e.2 name →
      Assoc.get? name other = Assoc.get? name store) : ResolvesTo arguments other resolved where
  ascending := h.ascending
  mem_iff key value := by
    rw [h.mem_iff]
    refine exists_congr fun argument => and_congr_right fun hargument => ?_
    have hsame := hsame _ hargument
    exact ⟨StandsFor.congr hsame, StandsFor.congr fun name hname => (hsame name hname).symm⟩

theorem mem_keys_resolve (hkeys : (arguments.map (·.1)).Nodup) (key : String) :
    key ∈ (arguments.resolve store).map (·.1) ↔
      ∃ argument, (key, argument) ∈ arguments ∧ ∃ value, StandsFor store argument value := by
  constructor
  · intro h
    obtain ⟨⟨_, value⟩, hmem, rfl⟩ := List.mem_map.1 h
    obtain ⟨argument, hargument, hvalue⟩ := (mem_resolve hkeys _ value).1 hmem
    exact ⟨argument, hargument, value, hvalue⟩
  · intro h
    obtain ⟨argument, hargument, value, hvalue⟩ := h
    exact List.mem_map.2
      ⟨(key, value), (mem_resolve hkeys key value).2 ⟨argument, hargument, hvalue⟩, rfl⟩

/-- **Arguments are resolved once, and to just what they stand for.** The names that are left are
those of arguments that refer to no variable or to one that is set. A value refers to a variable
exactly if it is the name between `${` and `}`, and the name has no `}`. The order of the arguments
and the variables to which none of them refers do not matter. -/
theorem resolve_exact (hkeys : (arguments.map (·.1)).Nodup) (store : Store) :
    (∀ resolved, arguments.resolve store = resolved ↔ ResolvesTo arguments store resolved) ∧
    (∀ key, key ∈ (arguments.resolve store).map (·.1) ↔
      ∃ argument, (key, argument) ∈ arguments ∧ ((∀ name, ¬ Refers argument name) ∨
        ∃ name, Refers argument name ∧ Assoc.contains name store = true)) ∧
    (∀ value name, reference? value = some name ↔
      value = .string ("$\x7b" ++ name ++ "\x7d") ∧ '}' ∉ name.toList) ∧
    (∀ others : Arguments, others.Perm arguments →
      others.resolve store = arguments.resolve store) ∧
    (∀ other : Store, (∀ e ∈ arguments, ∀ name, Refers e.2 name →
        Assoc.get? name other = Assoc.get? name store) →
      arguments.resolve other = arguments.resolve store) := by
  have hresolves := resolvesTo_resolve hkeys store
  refine ⟨fun resolved => resolve_eq_iff hkeys, fun key => ?_,
    fun value name => reference?_eq_some_iff, fun others hperm => ?_, fun other hsame => ?_⟩
  · rw [mem_keys_resolve hkeys]
    exact exists_congr fun argument => and_congr_right fun _ => exists_standsFor_iff
  · have hothers : (others.map (·.1)).Nodup := (hperm.map _).nodup_iff.2 hkeys
    exact (resolve_eq_iff hothers).2 (hresolves.perm hperm)
  · exact (resolve_eq_iff hkeys).2 (hresolves.congr hsame)

/-- The arguments of a letter: a variable that holds the text of a reference, one that is not set,
the empty name, and texts that come close to a reference. -/
def letter : Arguments :=
  [ ("text", .string "$\x7bgreeting\x7d"), ("subject", .string "for $\x7bname\x7d"),
    ("to", .string "$\x7brecipient\x7d"), ("copy", .null), ("from", .string "$\x7bname\x7d"),
    ("seal", .string "$\x7b\x7d"), ("odd", .string "$\x7bname\x7d\x7d") ]

/-- The variables for it. -/
def desk : Store :=
  [("", .bool true), ("greeting", .string "$\x7bname\x7d"), ("name", .string "Ada")]

/-- The letter as it is sent. -/
def sentLetter : Store :=
  [ ("copy", .null), ("from", .string "Ada"), ("odd", .string "$\x7bname\x7d\x7d"),
    ("seal", .bool true), ("subject", .string "for $\x7bname\x7d"),
    ("text", .string "$\x7bname\x7d") ]

/-- The greeting is not resolved again, the recipient is left out, and neither another order nor a
further variable changes anything. -/
theorem resolve_exact_letter :
    (letter.map (·.1)).Nodup ∧ ResolvesTo letter desk sentLetter ∧
      resolve letter.reverse desk = sentLetter ∧
      letter.resolve (("aside", .null) :: desk) = sentLetter := by
  have hkeys : (letter.map (·.1)).Nodup := by decide
  have hsent : letter.resolve desk = sentLetter := by decide +kernel
  obtain ⟨hexact, -, -, hperm, hframe⟩ := resolve_exact hkeys desk
  refine ⟨hkeys, (hexact _).1 hsent, (hperm _ letter.reverse_perm).trans hsent,
    (hframe _ fun e he name hname => ?_).trans hsent⟩
  have hmentioned : ∀ e ∈ letter, ∀ name ∈ reference? e.2,
      Assoc.get? name (("aside", .null) :: desk) = Assoc.get? name desk := by decide +kernel
  exact hmentioned e he name (refers_iff.1 hname)

end Arguments

end Flowgraph
