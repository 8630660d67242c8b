import Flowgraph.Proofs.Assoc
import Flowgraph.Variable

/-!
# References to variables

A value refers to a variable exactly if it is the text `${name}` and no `}` is in the name
(`reference?_eq_some_iff`). The empty name is a name, and what is in front of the `$` or after the
`}` makes the text an ordinary one. The resolved value of an argument depends on the argument alone
(`get?_resolve`), and arguments that are no references stand for themselves
(`get?_resolve_of_literal`).
-/

set_option autoImplicit false

namespace Flowgraph

namespace Variable

/-- A name is read from the text it makes up with its delimiters, and from no other. -/
theorem name?_eq_some_iff {text name : List Char} :
    name? text = some name ↔ text = '$' :: '{' :: (name ++ ['}']) ∧ '}' ∉ name := by
  constructor
  · intro h
    unfold name? at h
    split at h
    case h_2 => cases h
    case h_1 rest =>
      split at h
      case isFalse => cases h
      case isTrue hrest =>
        obtain ⟨hlast, hname⟩ := hrest
        obtain ⟨inner, rfl⟩ := List.getLast?_eq_some_iff.1 hlast
        rw [List.dropLast_concat] at h hname
        obtain rfl := Option.some.inj h
        exact ⟨rfl, hname⟩
  · rintro ⟨rfl, hname⟩
    have hlast : (name ++ ['}']).getLast? = some '}' := List.getLast?_concat
    simp only [name?, hlast, List.dropLast_concat, hname, not_false_eq_true, and_self, if_true]

/-- The text of a reference to a variable. -/
def mention (name : String) : String := "$\x7b" ++ name ++ "\x7d"

theorem toList_mention (name : String) :
    (mention name).toList = '$' :: '{' :: (name.toList ++ ['}']) := by
  simp [mention]

/-- **A value refers to a variable exactly if it is the name between `${` and `}`**, and the name
has no `}`. -/
theorem reference?_eq_some_iff {value : Json.Value} {name : String} :
    reference? value = some name ↔ value = .string (mention name) ∧ '}' ∉ name.toList := by
  cases value with
  | string text =>
    show (name? text.toList).map String.ofList = some name ↔ _
    rw [Option.map_eq_some_iff]
    constructor
    · rintro ⟨found, hfound, rfl⟩
      obtain ⟨htext, hname⟩ := name?_eq_some_iff.1 hfound
      rw [String.toList_ofList]
      refine ⟨?_, hname⟩
      rw [← String.ofList_toList (s := text), htext, ← String.ofList_toList (s := mention _),
        toList_mention, String.toList_ofList]
    · rintro ⟨htext, hname⟩
      obtain rfl := Json.Value.string.inj htext
      exact ⟨name.toList, name?_eq_some_iff.2 ⟨toList_mention name, hname⟩, String.ofList_toList⟩
  | _ => exact iff_of_false nofun nofun

end Variable

/-! ### The values of arguments -/

namespace Arguments

variable {arguments : Arguments}

/-- **Each argument is resolved for itself**, once. -/
theorem get?_resolve (hkeys : (arguments.map (·.1)).Nodup) (store : Store) (key : String) :
    Assoc.get? key (arguments.resolve store) =
      (Assoc.get? key arguments).bind (Variable.value? store) := by
  refine (Assoc.get?_foldl hkeys (f := Variable.value? store) (fun resolved e => ?_) []).trans
    (Option.or_none ..)
  obtain ⟨name, argument⟩ := e
  dsimp only
  cases Variable.value? store argument with
  | none => exact (ite_self _).symm
  | some value => exact Assoc.get?_insert ..

/-- Arguments that refer to no variables are resolved to themselves. -/
theorem get?_resolve_of_literal (hkeys : (arguments.map (·.1)).Nodup)
    (hliteral : ∀ e ∈ arguments, Variable.reference? e.2 = none) (store : Store) (key : String) :
    Assoc.get? key (arguments.resolve store) = Assoc.get? key arguments := by
  rw [get?_resolve hkeys]
  cases hvalue : Assoc.get? key arguments with
  | none => rfl
  | some argument =>
    have hnone := hliteral _ (Assoc.mem_of_get? hvalue)
    simp only [Option.bind_some, Variable.value?, hnone]

end Arguments

end Flowgraph
