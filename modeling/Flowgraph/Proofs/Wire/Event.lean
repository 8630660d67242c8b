import Flowgraph.Proofs.Decode.Faithful
import Flowgraph.Proofs.Time.ReadBack
import Flowgraph.Run.Event

/-!
# Events are read back

A written event has the moment it was reported with as its text, so an event is read back if its
moment is a proper one (`Event.faithful`).
-/

set_option autoImplicit false

namespace Flowgraph

open Decode

theorem Moment.faithful : Faithful (fun m => .string m.text) Moment.decode Moment.Proper id 0 where
  valued m := Tree.valued_string _
  reads mode m h := by simp [decode, read_text h, Except.mapError]
  found mode tree n m hfits h := by
    unfold decode at h
    split at h
    case h_2 =>
      unfold mismatch at h
      split at h <;> cases h
    case h_1 s =>
      cases hread : read s with
      | error fault => rw [hread] at h; cases h
      | ok found =>
        rw [hread] at h
        obtain rfl := Except.ok.inj h
        exact ⟨proper_of_read hread, rfl, Nat.zero_le _⟩

/-- The statuses of runs by name. -/
theorem RunStatus.faithful : Faithful (fun s => .string (RunStatus.name s))
    (choice RunStatus.names) (fun _ => True) id 0 :=
  faithful_choice fun s => by cases s <;> rfl

/-- The statuses of steps by name. -/
theorem StepStatus.faithful : Faithful (fun s => .string (StepStatus.name s))
    (choice StepStatus.names) (fun _ => True) id 0 :=
  faithful_choice fun s => by cases s <;> rfl

namespace Event

/-- The moment of a proper event is proper. -/
def Proper : Event Moment → Prop
  | .runStarted _ started => started.Proper
  | .runCompleted _ finished _ => finished.Proper
  | .stepStarted .. | .stepFinished .. => True

/-- The name of the kind of an event. -/
def name : Event Moment → String
  | .runStarted .. => "run_started"
  | .stepStarted .. => "step_started"
  | .stepFinished .. => "step_finished"
  | .runCompleted .. => "run_completed"

/-- The written fields of an event without its tag. -/
def content : Event Moment → List (String × Tree)
  | .runStarted workflow started => [("workflow", .string workflow), ("at", .string started.text)]
  | .stepStarted id kind => [("step_id", .string id), ("kind", .string kind)]
  | .stepFinished id kind status error =>
    [("step_id", .string id), ("kind", .string kind), ("status", .string status.name)] ++
      Tree.text? "error" error
  | .runCompleted status finished error =>
    [("status", .string status.name), ("finished_at", .string finished.text)] ++
      Tree.text? "error" error

theorem encode_eq (e : Event Moment) :
    e.encode = .object (("event", .string e.name) :: e.content) := by cases e <;> rfl

theorem valued_content (e : Event Moment) : Each Tree.Valued e.content := by
  cases e <;> simp [content]

theorem apart_content (e : Event Moment) : Apart ["event"] e.content := by
  have hwithin : Within ["workflow", "at", "step_id", "kind", "status", "finished_at", "error"]
      e.content := by cases e <;> simp [content]
  exact hwithin.apart (by decide)

theorem depth_encode (e : Event Moment) : e.encode.depth ≤ 1 := by
  rw [encode_eq]
  have hflat : Each (·.depth ≤ max 0 0) (("event", .string e.name) :: e.content) := by
    cases e <;> simp [content]
  exact depth_of_each hflat

theorem faithful : Faithful encode decode Proper (fun e => e) 1 where
  valued e := e.encode_eq ▸ valued_of_each (each_cons.2 ⟨Tree.valued_string _, e.valued_content⟩)
  reads mode e h := by
    have hapart : Apart [tagged.tag] e.content := e.apart_content
    rw [encode_eq]
    cases e with
    | runStarted workflow started =>
      refine Tagged.members_object (t := tagged) _ rfl hapart (valued_content _)
        (record_object (Part.seq_written (Part.map_written ?_) ?_) (by simp [content]))
      · exact required_written (.string workflow) (by simp [content]) rfl
      · exact required_written (.string started.text) (by simp [content])
          (Moment.faithful.reads .kept started h)
    | stepStarted id kind =>
      refine Tagged.members_object (t := tagged) _ rfl hapart (valued_content _)
        (record_object (Part.seq_written (Part.map_written ?_) ?_) (by simp [content]))
      · exact required_written (.string id) (by simp [content]) rfl
      · exact required_written (.string kind) (by simp [content]) rfl
    | stepFinished id kind status error =>
      refine Tagged.members_object (t := tagged) _ rfl hapart (valued_content _)
        (record_object (Part.seq_written (Part.seq_written (Part.seq_written (Part.map_written ?_)
          ?_) ?_) ?_) (by simp [content]))
      · exact required_written (.string id) (by simp [content]) rfl
      · exact required_written (.string kind) (by simp [content]) rfl
      · exact required_written (.string status.name) (by simp [content])
          (StepStatus.faithful.reads .kept status trivial)
      · exact optional_text (by simp [content])
    | runCompleted status finished error =>
      refine Tagged.members_object (t := tagged) _ rfl hapart (valued_content _)
        (record_object (Part.seq_written (Part.seq_written (Part.map_written ?_) ?_) ?_)
          (by simp [content]))
      · exact required_written (.string status.name) (by simp [content])
          (RunStatus.faithful.reads .kept status trivial)
      · exact required_written (.string finished.text) (by simp [content])
          (Moment.faithful.reads .kept finished h)
      · exact optional_text (by simp [content])
  found mode tree n e hfits h := by
    refine ⟨?_, rfl, Nat.le_trans e.depth_encode (Nat.le_max_right ..)⟩
    obtain ⟨m, alternative, content, rfl, hmem, hcontent, hread⟩ := Tagged.decode_eq_ok hfits h
    simp only [tagged, List.mem_cons, List.not_mem_nil, or_false] at hmem
    rcases hmem with rfl | rfl | rfl | rfl
    all_goals
      dsimp only at hread
      obtain ⟨m, f, -, hf, hparts⟩ := record_eq_ok hcontent hread
      simp only [Part.seq_eq_ok, Part.map_eq_ok] at hparts
    · obtain ⟨_, started, ⟨workflow, -, rfl⟩, hstarted, rfl⟩ := hparts
      exact (Moment.faithful.required hf hstarted).1
    · obtain ⟨_, kind, ⟨id, -, rfl⟩, -, rfl⟩ := hparts
      trivial
    · obtain ⟨_, error, ⟨_, status, ⟨_, kind, ⟨id, -, rfl⟩, -, rfl⟩, -, rfl⟩, -, rfl⟩ := hparts
      trivial
    · obtain ⟨_, error, ⟨_, finished, ⟨status, -, rfl⟩, hfinished, rfl⟩, -, rfl⟩ := hparts
      exact (Moment.faithful.required hf hfinished).1

end Event

end Flowgraph
