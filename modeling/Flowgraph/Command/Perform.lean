import Flowgraph.Activity.Builtin
import Flowgraph.Canvas.OfDefinition
import Flowgraph.Canvas.ToDefinition
import Flowgraph.Command.Line
import Flowgraph.Config
import Flowgraph.Definition.Registered
import Flowgraph.Host.Document
import Flowgraph.Run.Machine

/-!
# Performing commands

What a command does on a host, and what it has to say. Activities take their time on the
clock of the run only; `Report.elapsed` is how long they would have taken.
-/

set_option autoImplicit false

namespace Flowgraph.Command

/-- What a command has to say. -/
structure Report where
  /-- The text for the standard output. -/
  output : String := ""
  /-- The lines of events. -/
  events : List String := []
  /-- Why the command failed, if it did: the message, and what lies behind it. -/
  failure : Option (String × Option String) := none
  /-- How many milliseconds the command has taken. -/
  elapsed : Nat := 0

/-- The number that the program ends with. -/
def Report.status (r : Report) : Nat := if r.failure.isSome then 1 else 0

/-- The report of a failure. -/
def Report.failed (message : String) (cause : Option String := none) : Report :=
  { failure := some (message, cause) }

/-- The report of a command that prints a line. -/
def Report.line (text : String) : Report := { output := text ++ "\n" }

/-- The activities that workflows can use. -/
def registry (config : Config) (now : Nat) : Activity.Registry :=
  Activity.Builtin.register []
    (if config.sampleDelays then { clock := now } else .instant now)

/-- A text that may be missing. -/
def orNull (text : Option String) : Tree := text.elim .null .string

/-- An activity in the list of them. -/
def summary (schema : Activity.Schema) : Tree :=
  .object [("category", orNull schema.category), ("description", orNull schema.description),
    ("label", .string schema.label), ("name", .string schema.name)]

/-- The activities with a schema. -/
def listed (registry : Activity.Registry) : Report :=
  .line (Json.pretty (.array (registry.schemas.map summary)))

/-- The schema of an activity. -/
def schemaOf (registry : Activity.Registry) (name : String) : Report :=
  match registry.schema? name with
  | some schema => .line (Json.pretty schema.encode)
  | none => .failed ("Activity '" ++ name ++ "' not found")

/-- What is wrong with a workflow. -/
def validated (registry : Activity.Registry) (d : Definition) : Report :=
  let issues := (d.checkWith registry).map (·.toIssue)
  let errors := (issues.filter (·.isError)).length
  if issues.isEmpty then .line ("workflow '" ++ d.name ++ "' is valid")
  else
    { output := String.join (issues.map fun i => i.text ++ "\n")
      failure := if errors = 0 then none
        else some ("workflow '" ++ d.name ++ "' has " ++ toString errors ++ " error(s)", none) }

/-! ### Runs -/

/-- The variables in a value. -/
def storeOf : Json.Value → Except String Store
  | .object members => .ok members
  | .null => .ok []
  | value => .error ("workflow input must be an object, got " ++ value.text)

/-- The variables in a text of the command line. -/
def inlineInput (text : String) : Except String Store :=
  match Decode.ofJson Decode.value text with
  | .ok value => storeOf value
  | .error _ => .error "--input is not valid JSON"

/-- The variables in the text of a file. -/
def fileInput (path text : String) : Except String Store :=
  match (Yaml.Shape.value.read? text).bind Tree.value? with
  | some value => storeOf value
  | none => .error ("Failed to parse input file: " ++ path)

variable {m : Type → Type} [Monad m]

/-- The variables that a run begins with. -/
def input (host : Host m) : Input → m (Except String Store)
  | .absent => return .ok []
  | .inline text => return inlineInput text
  | .file path => do
    match ← host.read path with
    | .ok text => return fileInput path text
    | .error _ => return .error ("Failed to read input file: " ++ path)

/-- The line of an event. -/
def eventLine (start : Nat) (event : Event Unit) : String :=
  Json.compact (event.map fun _ => Moment.ofMillis start).encode

/-- The report of a run. Where events are shown, branches that nobody waits for any more
still come to their end. -/
def ran (invoker : Run.Invoker) (fuel now : Nat) (d : Definition) (input : Store)
    (events : Bool) : Report :=
  let begun := Run.Machine.launch {} d input
  match Run.Machine.run invoker (fun m => !events && m.isOver 0) none fuel begun with
  | none => .failed "workflow run failed" (some "the run does not come to an end")
  | some ended =>
    let progress : Option Run.Progress := ended.runs[0]?
    let outcome : Option Run.Outcome := progress.bind (·.outcome)
    let report : Report := match outcome with
      | some .done =>
        .line (Json.pretty (.object (Tree.ofMembers ((progress.map (·.store)).getD []))))
      | some (.failed f) => .failed "workflow run failed" (some f.message)
      | _ => .failed "workflow run failed"
    { report with
      events := if events then ((progress.map (·.events)).getD []).map (eventLine now) else []
      elapsed := ended.now }

/-! ### Commands -/

/-- Writes a text to a file if one is named, and else to the standard output. -/
def written (host : Host m) (output : Option String) (text : String) : m Report := do
  match output with
  | none => return .line text
  | some path =>
    if ← host.write path text then return {}
    else return .failed ("Failed to write " ++ path)

/-- Writes the default settings to a file. -/
def initialised (host : Host m) (path : String) (force : Bool) : m Report := do
  if !force then
    if ← host.exists? path then
      return .failed ("config file already exists: " ++ path ++ " (use --force to overwrite)")
  if ← Config.save host {} path then return .line path
  else return .failed ("Failed to write config file: " ++ path)

/-- Goes on with a workflow from a file. -/
def withWorkflow (host : Host m) (file : String) (k : Definition → m Report) : m Report := do
  match ← Document.loadWorkflow host file with
  | .ok d => k d
  | .error fault => return .failed fault.message

/-- Performs a command with some settings. -/
def performWith (host : Host m) (fuel : Nat) (config : Config) : Command → m Report
  | .listActivities => return listed (registry config host.environment.now)
  | .showSchema name => return schemaOf (registry config host.environment.now) name
  | .validate file => withWorkflow host file fun d =>
    return validated (registry config host.environment.now) d
  | .run file source events => withWorkflow host file fun d => do
    match ← input host source with
    | .error message => return .failed message
    | .ok store =>
      let now := host.environment.now
      let invoker := (registry config now).invoker.within (1000 * config.activityTimeout)
      return ran invoker fuel now d store events
  | .exportCanvas file output => do
    match ← Document.loadCanvas host file with
    | .ok canvas => written host output canvas.toDefinition.toYaml
    | .error fault => return .failed fault.message
  | .drawCanvas file output => withWorkflow host file fun d =>
    written host output (Json.pretty (Canvas.ofDefinition d).encode)
  | .showConfigPath => return .line (Config.path host.environment)
  | .initConfig force => initialised host (Config.path host.environment) force

/-- Performs a command. -/
def perform (host : Host m) (fuel : Nat) (command : Command) : m Report := do
  match ← Config.load host (Config.path host.environment) with
  | some config => performWith host fuel config command
  | none => return .failed "failed to load stepflow configuration"

end Flowgraph.Command
