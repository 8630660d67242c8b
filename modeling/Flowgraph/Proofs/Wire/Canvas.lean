import Flowgraph.Canvas.Basic
import Flowgraph.Proofs.Wire.Activity

/-!
# Canvases are read back

Nodes, edges and whole canvases are read back from their written forms.
-/

set_option autoImplicit false

namespace Flowgraph.Canvas

open Decode

theorem Position.faithful :
    Faithful Position.encode Position.decode (fun _ => True) (fun p => p) 1 where
  valued p := valued_of_each (by simp [Activity.float])
  reads mode p _ := by
    obtain ⟨x, y⟩ := p
    refine record_object (Part.seq_written (Part.map_written ?_) ?_) (by simp)
    · exact required_written (Activity.float x) (by simp) rfl
    · exact required_written (Activity.float y) (by simp) rfl
  found _ _ _ _ _ _ := ⟨trivial, rfl, Nat.le_max_right ..⟩

/-- The kinds of nodes by name. -/
theorem NodeKind.faithful : Faithful (fun k => .string (NodeKind.name k)) (choice NodeKind.names)
    (fun _ => True) (fun k => k) 0 := faithful_choice fun k => by cases k <;> rfl

namespace NodeData

/-- The arguments of a proper node name each parameter once. -/
def Proper (d : NodeData) : Prop := ∀ arguments ∈ d.arguments, ProperArguments arguments

theorem faithful : Faithful encode decode Proper (fun d => d) 2 where
  valued d := valued_of_each (by simp [faithful_authored.valued])
  reads mode d h := by
    obtain ⟨label, activityName, arguments, result, kind⟩ := d
    refine record_object (Part.seq_written (Part.seq_written (Part.seq_written (Part.seq_written
      (Part.map_written ?_) ?_) ?_) ?_) ?_) ?_
    · exact required_written (.string label) (by simp) rfl
    · exact optional_text (by simp)
    · exact (faithful_authored.optional_written (by simp) h (fun _ _ => nofun)).trans
        (congrArg _ (Option.map_id_apply ..))
    · exact optional_text (by simp)
    · exact required_written (.string kind.name) (by simp)
        (NodeKind.faithful.reads mode kind trivial)
    · simp
  found mode tree n d hfits h := by
    obtain ⟨m, f, rfl, hf, hparts⟩ := record_eq_ok hfits h
    simp only [Part.seq_eq_ok, Part.map_eq_ok] at hparts
    obtain ⟨_, kind, ⟨_, result, ⟨_, arguments, ⟨_, activityName, ⟨label, -, rfl⟩, -, rfl⟩,
      harguments, rfl⟩, -, rfl⟩, -, rfl⟩ := hparts
    have hfound := faithful_authored.optional hf harguments
    refine ⟨fun a ha => (hfound a ha).1, rfl, depth_of_each ?_⟩
    simpa using fun a ha => (hfound a ha).2.2

end NodeData

namespace Node

/-- What a proper node holds is proper. -/
def Proper (n : Node) : Prop := n.data.Proper

theorem faithful : Faithful encode decode Proper (fun n => n) 3 where
  valued n := valued_of_each (by simp [Position.faithful.valued, NodeData.faithful.valued])
  reads mode n h := by
    obtain ⟨id, shape, position, data⟩ := n
    refine record_object (Part.seq_written (Part.seq_written (Part.seq_written
      (Part.map_written ?_) ?_) ?_) ?_) (by simp)
    · exact required_written (.string id) (by simp) rfl
    · exact required_written (.string shape) (by simp) rfl
    · exact required_written position.encode (by simp)
        (Position.faithful.reads mode position trivial)
    · exact required_written data.encode (by simp) (NodeData.faithful.reads mode data h)
  found mode tree n node hfits h := by
    obtain ⟨m, f, rfl, hf, hparts⟩ := record_eq_ok hfits h
    simp only [Part.seq_eq_ok, Part.map_eq_ok] at hparts
    obtain ⟨_, data, ⟨_, position, ⟨_, shape, ⟨id, -, rfl⟩, -, rfl⟩, -, rfl⟩, hdata, rfl⟩ := hparts
    obtain ⟨hproper, -, hdepth⟩ := NodeData.faithful.required hf hdata
    have hposition : position.encode.depth ≤ max m 2 :=
      Nat.le_trans (by decide : 1 ≤ 2) (Nat.le_max_right ..)
    exact ⟨hproper, rfl, depth_of_each (by
      simp only [each_cons, each_nil, Tree.depth_string, Nat.zero_le, and_self, hdepth,
        hposition])⟩

end Node

namespace Edge

theorem faithful : Faithful encode decode (fun _ => True) (fun e => e) 1 where
  valued e := valued_of_each (by simp)
  reads mode e _ := by
    obtain ⟨id, source, target, handle, label⟩ := e
    refine record_object (Part.seq_written (Part.seq_written (Part.seq_written (Part.seq_written
      (Part.map_written ?_) ?_) ?_) ?_) ?_) (by simp)
    · exact required_written (.string id) (by simp) rfl
    · exact required_written (.string source) (by simp) rfl
    · exact required_written (.string target) (by simp) rfl
    · exact optional_text (by simp)
    · exact optional_text (by simp)
  found mode tree n e hfits h := by
    obtain ⟨m, f, rfl, hf, hparts⟩ := record_eq_ok hfits h
    exact ⟨trivial, rfl, depth_of_each (by simp)⟩

end Edge

/-- The nodes of a proper canvas are proper. -/
def Proper (c : Canvas) : Prop := ∀ n ∈ c.nodes, n.Proper

theorem faithful : Faithful encode decode Proper (fun c => c) 5 where
  valued c := valued_of_each (by simp [Node.faithful.valued, Edge.faithful.valued])
  reads mode c h := by
    obtain ⟨name, description, nodes, edges⟩ := c
    refine record_object (Part.seq_written (Part.seq_written (Part.seq_written
      (Part.map_written ?_) ?_) ?_) ?_) (by simp)
    · exact withDefault_always (.string name) (by simp) rfl
    · exact optional_text (by simp)
    · exact withDefault_always (.array (nodes.map Node.encode)) (by simp)
        ((Node.faithful.list.reads mode nodes h).trans (congrArg _ (List.map_id nodes)))
    · exact withDefault_always (.array (edges.map Edge.encode)) (by simp)
        ((Edge.faithful.list.reads mode edges fun _ _ => trivial).trans
          (congrArg _ (List.map_id edges)))
  found mode tree n c hfits h := by
    obtain ⟨m, f, rfl, hf, hparts⟩ := record_eq_ok hfits h
    simp only [Part.seq_eq_ok, Part.map_eq_ok] at hparts
    obtain ⟨_, edges, ⟨_, nodes, ⟨_, description, ⟨name, -, rfl⟩, -, rfl⟩, hnodes, rfl⟩, hedges,
      rfl⟩ := hparts
    have hnone : 1 ≤ max m 4 := Nat.le_trans (by decide : 1 ≤ 4) (Nat.le_max_right ..)
    obtain ⟨hproper, -, hdepth⟩ := Node.faithful.list.withDefault hf hnodes
      ⟨List.forall_mem_nil _, rfl, hnone⟩
    obtain ⟨-, -, hedge⟩ := Edge.faithful.list.withDefault hf hedges
      ⟨List.forall_mem_nil _, rfl, Nat.le_trans (by decide : 1 ≤ 2) (Nat.le_max_right ..)⟩
    have hedge : (Tree.array (edges.map Edge.encode)).depth ≤ max m 4 := by omega
    exact ⟨hproper, rfl, depth_of_each (by
      simp only [each_cons, each_append, each_text?, each_nil, Tree.depth_string, Nat.zero_le,
        implies_true, and_self, hdepth, hedge])⟩

end Flowgraph.Canvas
