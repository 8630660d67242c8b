import Flowgraph.Decode.Variant
import Flowgraph.Time.Reading

/-!
# Events

What a run reports while it goes on. Events carry the moments of the beginning and the end
of a run as values of a type `τ`: a run itself leaves them open, in written events they are
moments in universal time.
-/

set_option autoImplicit false

namespace Flowgraph

open Decode

/-- Where a run stands. -/
inductive RunStatus where
  | running
  | succeeded
  | failed
  deriving DecidableEq

/-- How a step ended. -/
inductive StepStatus where
  | succeeded
  | failed
  deriving DecidableEq

/-- What a run reports while it goes on. -/
inductive Event (τ : Type) where
  | runStarted (workflow : String) (started : τ)
  | stepStarted (stepId kind : String)
  /-- A step and everything it had done on its behalf is over, its next step apart. -/
  | stepFinished (stepId kind : String) (status : StepStatus) (error : Option String)
  | runCompleted (status : RunStatus) (finished : τ) (error : Option String)
  deriving DecidableEq

/-- The statuses of runs by name. -/
def RunStatus.names : List (String × RunStatus) :=
  [("running", .running), ("succeeded", .succeeded), ("failed", .failed)]

/-- The name of a status. -/
def RunStatus.name : RunStatus → String
  | .running => "running"
  | .succeeded => "succeeded"
  | .failed => "failed"

/-- The statuses of steps by name. -/
def StepStatus.names : List (String × StepStatus) :=
  [("succeeded", .succeeded), ("failed", .failed)]

/-- The name of a status. -/
def StepStatus.name : StepStatus → String
  | .succeeded => "succeeded"
  | .failed => "failed"

/-- Reads a moment. -/
def Moment.decode : Decoder Moment := fun _ tree =>
  match tree with
  | .string s => (Moment.read s).mapError fun f => .time f.message
  | tree => mismatch "an RFC 3339 formatted date and time string" tree

namespace Event

/-- The same event with other moments. -/
def map {τ υ : Type} (f : τ → υ) : Event τ → Event υ
  | .runStarted workflow started => .runStarted workflow (f started)
  | .stepStarted id kind => .stepStarted id kind
  | .stepFinished id kind status error => .stepFinished id kind status error
  | .runCompleted status finished error => .runCompleted status (f finished) error

/-- The written form of an event. -/
def encode : Event Moment → Tree
  | .runStarted workflow started =>
    .object [("event", .string "run_started"), ("workflow", .string workflow),
      ("at", .string started.text)]
  | .stepStarted id kind =>
    .object [("event", .string "step_started"), ("step_id", .string id), ("kind", .string kind)]
  | .stepFinished id kind status error =>
    .object ([("event", .string "step_finished"), ("step_id", .string id),
      ("kind", .string kind), ("status", .string status.name)] ++ Tree.text? "error" error)
  | .runCompleted status finished error =>
    .object ([("event", .string "run_completed"), ("status", .string status.name),
      ("finished_at", .string finished.text)] ++ Tree.text? "error" error)

/-- The kinds of events. -/
def tagged : Tagged (Event Moment) where
  tag := "event"
  title := "internally tagged enum RunEvent"
  alternatives :=
    [ ("run_started", record "struct variant RunEvent::RunStarted" ["workflow", "at"] fun f =>
        Event.runStarted <$> f.required "workflow" text <*> f.required "at" Moment.decode),
      ("step_started", record "struct variant RunEvent::StepStarted" ["step_id", "kind"]
        fun f => Event.stepStarted <$> f.required "step_id" text <*> f.required "kind" text),
      ("step_finished", record "struct variant RunEvent::StepFinished"
        ["step_id", "kind", "status", "error"] fun f =>
        Event.stepFinished <$> f.required "step_id" text <*> f.required "kind" text
          <*> f.required "status" (choice StepStatus.names) <*> f.optional "error" text),
      ("run_completed", record "struct variant RunEvent::RunCompleted"
        ["status", "finished_at", "error"] fun f =>
        Event.runCompleted <$> f.required "status" (choice RunStatus.names)
          <*> f.required "finished_at" Moment.decode <*> f.optional "error" text) ]

/-- Reads an event. -/
def decode : Decoder (Event Moment) := tagged.decode

end Event

end Flowgraph
