import Flowgraph.Proofs.Assoc
import Flowgraph.Proofs.Run.Replay

/-!
# Variables in ascending order

The variables of a run are entries in ascending order of their names (`Assoc.Ascending`), and what
is done in a run keeps them so (`ascending_replay`).
-/

set_option autoImplicit false

namespace Flowgraph

namespace Run

open Assoc (Ascending)

variable {input : Store}

/-- What is done in a run keeps the variables in order. -/
theorem ascending_effect (deed : Deed) {store : Store} (h : Ascending store) :
    Ascending (deed.effect store) := by
  cases deed with
  | answered step call result =>
    refine Ascending.insert ?_
    cases call.resultVariable with
    | none => exact h
    | some name =>
      dsimp only
      split
      · split
        · exact h.insert
        · exact h.erase
      · exact h
  | _ => exact h

theorem ascending_replay {history : List Entry} (h : Ascending input) :
    Ascending (replay input history) := by
  induction history generalizing input with
  | nil => exact h
  | cons e history ih => exact ih (ascending_effect e.deed h)

end Run

end Flowgraph
