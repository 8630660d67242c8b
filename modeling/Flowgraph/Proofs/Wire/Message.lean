import Flowgraph.Issue
import Flowgraph.Proofs.Wire.Definition
import Flowgraph.Service.Message

/-!
# Messages and issues are read back

What clients of the run service send and get, and the issues that a check reports, are read back
from their written forms. A request without variables is written with `null` in their place.
-/

set_option autoImplicit false

namespace Flowgraph

open Decode

namespace Service

namespace Request

/-- The definition of a proper request is proper, and its variables are in order. -/
def Proper (r : Request) : Prop :=
  r.definition.Proper ∧ ∀ input ∈ r.input, (Json.Value.object input).Ordered

theorem faithful : Faithful encode decode Proper (fun r => r) 5 where
  valued r := valued_of_each (by
    cases h : r.input <;>
      simp [Definition.faithful.valued, storeTree, faithful_ascending.valued])
  reads mode r h := by
    obtain ⟨definition, input⟩ := r
    refine record_object (Part.seq_written (Part.map_written ?_) ?_) (by simp)
    · exact required_written definition.encode (by simp)
        (Definition.faithful.reads mode definition h.1)
    · cases input with
      | none => exact field_written .null (by simp) rfl
      | some store =>
        exact field_written (storeTree store) (by simp)
          (nullable_eq_ok (faithful_ascending.reads mode store (h.2 store rfl)) nofun)
  found mode tree n r hfits h := by
    obtain ⟨m, f, rfl, hf, hparts⟩ := record_eq_ok hfits h
    simp only [Part.seq_eq_ok, Part.map_eq_ok] at hparts
    obtain ⟨_, input, ⟨definition, hdefinition, rfl⟩, hinput, rfl⟩ := hparts
    obtain ⟨hproper, -, hdepth⟩ := Definition.faithful.required hf hdefinition
    have hfound := faithful_ascending.optional hf hinput
    have hstore : ((input.map storeTree).getD .null).depth ≤ max m 4 := by
      cases input with
      | none => exact Nat.zero_le _
      | some store =>
        have hle : (storeTree store).depth ≤ max m 1 := (hfound store rfl).2.2
        exact Nat.le_trans hle (by omega)
    exact ⟨⟨hproper, fun a ha => (hfound a ha).1⟩, rfl,
      depth_of_each (by simp only [each_cons, each_nil, and_self, hdepth, hstore])⟩

end Request

theorem Response.faithful :
    Faithful Response.encode Response.decode (fun _ => True) (fun r => r) 1 where
  valued r := valued_of_each (by simp)
  reads mode r _ := by
    obtain ⟨workflowId, runId, status⟩ := r
    refine record_object (Part.seq_written (Part.seq_written (Part.map_written ?_) ?_) ?_)
      (by simp)
    · exact required_written (.string workflowId) (by simp) rfl
    · exact required_written (.string runId) (by simp) rfl
    · exact required_written (.string status) (by simp) rfl
  found _ _ _ _ _ _ := ⟨trivial, rfl, Nat.le_max_right ..⟩

namespace Final

/-- The final variables are in order. -/
def Proper (f : Final) : Prop := (Json.Value.object f.result).Ordered

theorem faithful : Faithful encode decode Proper (fun f => f) 2 where
  valued f := valued_of_each (by simp [storeTree, faithful_ascending.valued])
  reads mode f h := by
    obtain ⟨result⟩ := f
    refine record_object (Part.map_written ?_) (by simp)
    exact required_written (storeTree result) (by simp) (faithful_ascending.reads mode result h)
  found mode tree n f hfits h := by
    obtain ⟨m, f, rfl, hf, hparts⟩ := record_eq_ok hfits h
    obtain ⟨result, hresult, rfl⟩ := Part.map_eq_ok.1 hparts
    obtain ⟨hproper, -, hdepth⟩ := faithful_ascending.required hf hresult
    exact ⟨hproper, rfl, depth_of_each (by simpa [storeTree] using hdepth)⟩

end Final

end Service

/-- The severities by name. -/
theorem Severity.faithful : Faithful (fun s => .string (Severity.name s)) (choice Severity.names)
    (fun _ => True) (fun s => s) 0 := faithful_choice fun s => by cases s <;> rfl

theorem Issue.faithful : Faithful Issue.encode Issue.decode (fun _ => True) (fun i => i) 1 where
  valued i := valued_of_each (by simp)
  reads mode i _ := by
    obtain ⟨severity, stepId, message⟩ := i
    refine record_object (Part.seq_written (Part.seq_written (Part.map_written ?_) ?_) ?_)
      (by simp)
    · exact required_written (.string severity.name) (by simp)
        (Severity.faithful.reads mode severity trivial)
    · exact optional_text (by simp)
    · exact required_written (.string message) (by simp) rfl
  found mode tree n i hfits h := by
    obtain ⟨m, _, rfl, -, -⟩ := record_eq_ok hfits h
    exact ⟨trivial, rfl, depth_of_each (by simp)⟩

end Flowgraph
