import Flowgraph.Activity.Result
import Flowgraph.Decimal.Layout
import Flowgraph.Run.Failure
import Flowgraph.Variable

/-!
# Invokers

The interpreter runs activities through an `Invoker`. It says for each call, given the calls
made before, how long the activity takes and how it ends. `Invoker.within` puts a deadline on
every call: an activity that takes longer is cut off there and counts as failed.
-/

set_option autoImplicit false

namespace Flowgraph.Run

/-- A call of an activity with the values of its arguments. -/
structure Invocation where
  name : String
  arguments : Store
  deriving DecidableEq

/-- How an activity ends: with a result, or by a panic. -/
inductive Ending where
  | result (r : Activity.Result)
  | panic (payload : Payload)
  deriving DecidableEq

/-- What comes of a call: after a delay in milliseconds, an ending. -/
structure Reply where
  delay : Nat
  ending : Ending
  deriving DecidableEq

/-- Runs activities: from the calls before and the call at hand to the reply. -/
abbrev Invoker := List Invocation → Invocation → Reply

/-- How many milliseconds a delay may have before it is taken for endless; an endless delay
is thirty years. -/
def endless : Nat := Nat.pow 2 63 * 1000

/-- The milliseconds that are waited for a delay. -/
def sleepLength (millis : Nat) : Nat :=
  if millis < endless then millis else 30 * 365 * 86400 * 1000

/-- The deadline of calls when none is chosen, in milliseconds. -/
def defaultDeadline : Nat := 60000

/-- The text of so many milliseconds in seconds: the whole seconds and the fraction are
rounded before they are added. -/
def secondsText (millis : Nat) : String :=
  let whole := (Binary64.ofInt? (millis / 1000 : Nat)).getD .zero
  let part := (Binary64.ofRatio false (millis % 1000) 1000).getD .zero
  let sum := (Binary64.ofRatio false (whole.units + part.units) Binary64.unitsPerOne).getD .zero
  String.ofList (Decimal.plain.write sum)

/-- What becomes of a call that is cut off. -/
def timedOut (name : String) (deadline : Nat) : Activity.Result :=
  .failure ("Activity '" ++ name ++ "' timed out after " ++ secondsText deadline ++ "s")

/-- The same invoker with a deadline in milliseconds on every call. An activity that ends
just at the deadline is in time. -/
def Invoker.within (invoker : Invoker) (deadline : Nat) : Invoker := fun earlier call =>
  let reply := invoker earlier call
  if reply.delay ≤ sleepLength deadline then reply
  else ⟨sleepLength deadline, .result (timedOut call.name deadline)⟩

end Flowgraph.Run
