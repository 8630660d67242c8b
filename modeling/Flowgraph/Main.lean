import Flowgraph.Command.Line
import Flowgraph.Command.Perform
import Std.Time.DateTime.Timestamp

/-!
# The program

Runs the command that the command line asks for on the real system.
-/

set_option autoImplicit false

namespace Flowgraph.Program

/-- The text of a file. -/
def read (path : String) : IO (Except ReadFault String) := do
  try
    return .ok (← IO.FS.readFile path)
  catch
    | .noFileOrDirectory .. => return .error .missing
    | _ => return .error .unreadable

/-- Whether an action succeeds. -/
def succeeds (action : IO Unit) : IO Bool := do
  try
    action
    return true
  catch _ => return false

/-- The real system. -/
def host : IO (Host IO) := do
  let now ← Std.Time.Timestamp.now
  return {
    environment :=
      { configVariable := ← IO.getEnv "STEPFLOW_CONFIG_PATH"
        home := ← IO.getEnv "HOME"
        configHome := ← IO.getEnv "XDG_CONFIG_HOME"
        now := now.toMillisecondsSinceUnixEpoch.toInt.toNat }
    read := read
    write := fun path text => succeeds (IO.FS.writeFile path text)
    makeDirectory := fun path =>
      if path.isEmpty then return true else succeeds (IO.FS.createDirAll path)
    exists? := fun path => do
      match ← read path with
      | .error .missing => return false
      | _ => return true }

/-- More steps than any run takes. -/
def fuel : Nat := 1000000000000

/-- How the program is used. -/
def usage : String :=
  "Usage: stepflow <COMMAND>\n\nCommands:\n" ++
    String.join (Command.forms.map fun f => "  " ++ f.1.1 ++ " " ++ f.1.2 ++ "\n")

/-- Says what a command has to say. -/
def say (r : Command.Report) : IO Unit := do
  let stdout ← IO.getStdout
  r.events.forM IO.eprintln
  stdout.putStr r.output
  stdout.flush
  match r.failure with
  | none => return
  | some (message, none) => IO.eprintln ("Error: " ++ message)
  | some (message, some cause) =>
    IO.eprintln ("Error: " ++ message ++ "\n\nCaused by:\n    " ++ cause)

/-- Does what the command line asks for. -/
def run (args : List String) : IO UInt32 := do
  match Command.request args with
  | .help =>
    IO.print usage
    return 0
  | .version =>
    IO.println "stepflow 0.1.0"
    return 0
  | .misuse =>
    IO.eprint usage
    return 2
  | .command command =>
    let report ← Command.perform (← host) fuel command
    IO.sleep (min report.elapsed 4294967295).toUInt32
    say report
    return report.status.toUInt32

end Flowgraph.Program

def main (args : List String) : IO UInt32 := Flowgraph.Program.run args
