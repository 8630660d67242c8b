import Flowgraph.Host.Path

/-!
# Hosts

What a command needs of the system it runs on: files, some variables of the environment and
the time. Commands run in any monad `m` that has these; in `IO` they act on the real system,
over a `Disk` they can be run in memory.
-/

set_option autoImplicit false

namespace Flowgraph

/-- Why a file cannot be read. -/
inductive ReadFault where
  | missing
  /-- It is not a file, is not to be had, or is not text. -/
  | unreadable
  deriving DecidableEq

/-- What a command finds around it. -/
structure Environment where
  /-- The variable that says where the configuration is. -/
  configVariable : Option String := none
  /-- The home directory. -/
  home : Option String := none
  /-- The directory for configurations, if it is not the usual one. -/
  configHome : Option String := none
  /-- The milliseconds since the beginning of 1970. -/
  now : Nat := 0

/-- The system that commands run on. -/
structure Host (m : Type → Type) where
  environment : Environment
  /-- The text of a file. -/
  read : String → m (Except ReadFault String)
  /-- Writes the text of a file, and tells whether that was possible. -/
  write : String → String → m Bool
  /-- Makes a directory and the ones it lies in, and tells whether all exist. -/
  makeDirectory : String → m Bool
  /-- Whether there is a file or directory. -/
  exists? : String → m Bool

end Flowgraph
