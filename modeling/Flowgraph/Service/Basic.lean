import Flowgraph.Activity.Registry
import Flowgraph.Run.Machine
import Flowgraph.Service.Message

/-!
# The run service

The service starts runs and answers questions about them by their ids. The id of a run is
made of the name of its definition and the time of its start, moved on until no run that is
kept has it. Runs are kept until they are forgotten; a run that is forgotten goes on, but
nobody learns how it ends.
-/

set_option autoImplicit false

namespace Flowgraph

open Run

/-- Why the service does not do as it is asked. -/
inductive Service.Error where
  | invalidDefinition
  | runNotFound (id : String)
  | activityNotFound (name : String)
  | runFailed (message : String)
  deriving DecidableEq

/-- The wording of an error. -/
def Service.Error.message : Service.Error → String
  | .invalidDefinition => "Invalid workflow definition"
  | .runNotFound id => "Workflow '" ++ id ++ "' not found"
  | .activityNotFound name => "Activity '" ++ name ++ "' not found"
  | .runFailed message => message

/-- A service: its activities, the machine that does its runs, and the runs that are kept. -/
structure Service where
  registry : Activity.Registry
  machine : Machine := {}
  /-- The ids of the runs that are kept, with their numbers in the machine. -/
  entries : List (String × Nat) := []

namespace Service

/-- The id of a run, with the time in milliseconds; a clock may stand before its origin. -/
def idOf (name : String) (millis : Int) : String := name ++ "-" ++ toString millis

/-- The first id from a time on that is not taken, after at most `fuel` that are. -/
def freeId (entries : List (String × Nat)) (name : String) : Nat → Int → String
  | 0, millis => idOf name millis
  | fuel + 1, millis =>
    if Assoc.contains (idOf name millis) entries then freeId entries name fuel (millis + 1)
    else idOf name millis

/-- The text of a random identifier made from 128 bits. -/
def randomId (bits : Nat) : String :=
  let digit (i : Nat) : Nat :=
    let d := bits / Nat.pow 16 (31 - i) % 16
    if i = 12 then 4 else if i = 16 then 8 + d % 4 else d
  let group (first count : Nat) : List Char :=
    (List.range' first count).map fun i => Nat.digitChar (digit i)
  String.ofList ("-".toList.intercalate
    [group 0 8, group 8 4, group 12 4, group 16 4, group 20 12])

example : randomId 0x0123456789abcdef0123456789abcdef =
    "01234567-89ab-4def-8123-456789abcdef" := by
  decide +kernel

/-- Starts a run, given the time and random bits. -/
def start (s : Service) (clock : Int) (bits : Nat) (r : Request) :
    Except Error (Response × Service) :=
  if Text.blank r.definition.name then .error .invalidDefinition
  else
    let id := freeId s.entries r.definition.name s.entries.length clock
    .ok (⟨id, randomId bits, "started"⟩,
      { s with
        machine := s.machine.launch r.definition (r.input.getD [])
        entries := Assoc.insert id s.machine.runs.length s.entries })

/-- The run with an id. -/
def find (s : Service) (id : String) : Except Error Nat :=
  match Assoc.get? id s.entries with
  | some run => .ok run
  | none => .error (.runNotFound id)

/-- Where a run stands. One that has panicked never reports its end. -/
def statusOf (s : Service) (run : Nat) : RunStatus :=
  match s.machine.runs[run]?.bind (·.outcome) with
  | some .done => .succeeded
  | some (.failed _) => .failed
  | _ => .running

/-- Where the run with an id stands. -/
def status (s : Service) (id : String) : Except Error RunStatus :=
  (s.find id).map s.statusOf

/-- Stops keeping a run. -/
def forget (s : Service) (id : String) : Except Error (RunStatus × Service) :=
  (s.find id).map fun run => (s.statusOf run, { s with entries := Assoc.erase id s.entries })

/-- How a run with an id has ended. -/
def outcome (s : Service) (id : String) (run : Nat) : Except Error Final :=
  match s.machine.runs[run]? with
  | some { store, outcome := some .done, .. } => .ok ⟨store⟩
  | some { outcome := some (.failed failure), .. } => .error (.runFailed failure.message)
  | some { outcome := some (.panicked _), .. } =>
    .error (.runFailed ("Workflow '" ++ id ++ "' stopped before reporting a result"))
  | _ => .error (.runFailed ("Workflow '" ++ id ++ "' has no result"))

/-- Waits for the end of a run. Out of `fuel`, nothing comes of it. -/
def result (s : Service) (invoker : Invoker) (fuel : Nat) (id : String) :
    Option (Except Error Final × Service) :=
  match s.find id with
  | .error e => some (.error e, s)
  | .ok run =>
    if s.machine.isOver run then some (s.outcome id run, s)
    else (Machine.run invoker (·.isOver run) none fuel s.machine).map fun machine =>
      let s := { s with machine }
      (s.outcome id run, s)

/-- Lets time pass. Out of `fuel`, nothing comes of it. -/
def advance (s : Service) (invoker : Invoker) (fuel millis : Nat) : Option Service :=
  (Machine.run invoker (fun _ => false) (some (s.machine.now + millis)) fuel s.machine).map
    fun machine => { s with machine }

/-- The schemas of all activities. -/
def activities (s : Service) : List Activity.Schema := s.registry.schemas

/-- The schema of an activity. -/
def schema (s : Service) (name : String) : Except Error Activity.Schema :=
  match s.registry.schema? name with
  | some schema => .ok schema
  | none => .error (.activityNotFound name)

end Service

end Flowgraph
