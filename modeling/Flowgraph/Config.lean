import Flowgraph.Decode.Record
import Flowgraph.Host.Basic
import Flowgraph.Json.Printer
import Flowgraph.Text.Basic

/-!
# Configuration

The settings of the command line program, kept in a file of JSON text. A file that is missing
or that does not hold settings counts as one that leaves everything as it is by default.
-/

set_option autoImplicit false

namespace Flowgraph

open Decode

/-- The settings of the program. -/
structure Config where
  /-- The deadline on every call of an activity, in seconds. -/
  activityTimeout : Nat := 60
  /-- What is to be logged. -/
  logFilter : Option String := none
  /-- Whether the activities that come with the program take time. -/
  sampleDelays : Bool := true
  deriving DecidableEq

namespace Config

/-- An unsigned integer. -/
def natural : Decoder Nat := fun _ tree =>
  match tree with
  | .number (.integer (.ofNat n) _) => .ok n
  | tree => mismatch "u64" tree

/-- Reads settings; those that are left out are as by default. -/
def decode : Decoder Config :=
  record "struct Config" ["activity_timeout_secs", "log_filter", "sample_activity_delays"]
    fun f => Config.mk <$> f.withDefault "activity_timeout_secs" natural 60
      <*> f.optional "log_filter" text <*> f.withDefault "sample_activity_delays" bool true

/-- The written form of settings. -/
def encode (c : Config) : Tree :=
  .object (("activity_timeout_secs", .number (.ofInt c.activityTimeout)) ::
    Tree.text? "log_filter" c.logFilter ++ [("sample_activity_delays", .bool c.sampleDelays)])

/-- The settings in the text of a file. -/
def ofText (text : String) : Config :=
  match ofJson decode text with
  | .ok c => c
  | .error _ => {}

/-! ### Files -/

/-- A path with a home directory in place of a tilde at its start. -/
def expandTilde (home : Option String) (path : String) : String :=
  let home := home.getD "~"
  if path = "~" then home
  else if path.startsWith "~/" ∨ path.startsWith "~\\" then
    Path.join home (String.ofList (path.toList.drop 2))
  else path

/-- The directory for configurations. -/
def directory (e : Environment) : String :=
  match e.configHome.filter Path.isAbsolute, e.home with
  | some path, _ => path
  | none, some home => Path.join home ".config"
  | none, none => "."

/-- Where the settings are kept. -/
def path (e : Environment) : String :=
  match e.configVariable.filter (!Text.blank ·) with
  | some text => expandTilde e.home (Text.trim text)
  | none => Path.join (Path.join (directory e) "stepflow") "config.json"

variable {m : Type → Type} [Monad m]

/-- Loads settings; `none` if there is a file that cannot be read. -/
def load (host : Host m) (path : String) : m (Option Config) := do
  match ← host.read path with
  | .ok text => return some (ofText text)
  | .error .missing => return some {}
  | .error .unreadable => return none

/-- Saves settings in a file, and makes the directory it lies in. -/
def save (host : Host m) (c : Config) (path : String) : m Bool := do
  match Path.parent? path with
  | none => host.write path (Json.pretty c.encode)
  | some directory =>
    if ← host.makeDirectory directory then host.write path (Json.pretty c.encode)
    else return false

end Config

end Flowgraph
