import Flowgraph.Canvas.OfDefinition
import Flowgraph.Canvas.ToDefinition
import Flowgraph.Command.Line
import Flowgraph.Command.Perform
import Flowgraph.Host.Disk
import Flowgraph.Main
import Flowgraph.Service.Basic
import Flowgraph.Proofs.Run.Deed
import Flowgraph.Proofs.Run.Turn
import Flowgraph.Proofs.Run.Ledger
import Flowgraph.Proofs.Definition.References
import Flowgraph.Proofs.Run.Fate
import Flowgraph.Proofs.Run.Placement
import Flowgraph.Proofs.Run.Replay
import Flowgraph.Proofs.Run.Registered
import Flowgraph.Proofs.Run.Within
import Flowgraph.Proofs.Run.Branches
import Flowgraph.Proofs.Run.Blame
import Flowgraph.Proofs.Run.FirstFailure
import Flowgraph.Proofs.Run.Verdict
import Flowgraph.Proofs.Run.Termination
import Flowgraph.Proofs.Canvas.FreeId
import Flowgraph.Proofs.Canvas.RoundTrip
import Flowgraph.Proofs.Canvas.Stability
import Flowgraph.Proofs.Run.NormalForm
import Flowgraph.Proofs.Definition.Chains
import Flowgraph.Proofs.Definition.Verdict
import Flowgraph.Proofs.Definition.Order
import Flowgraph.Proofs.Definition.Cycles
import Flowgraph.Proofs.Run.Unreachable
import Flowgraph.Proofs.Run.Lookup
import Flowgraph.Proofs.Run.Boundary
import Flowgraph.Proofs.Run.Recast
import Flowgraph.Proofs.Run.Watched
import Flowgraph.Proofs.Run.Deadline
import Flowgraph.Proofs.Run.Census
import Flowgraph.Proofs.Run.Residual
import Flowgraph.Proofs.Run.Apart
import Flowgraph.Proofs.Run.Settling
import Flowgraph.Proofs.Run.Ascending
import Flowgraph.Proofs.Run.Confluence
import Flowgraph.Proofs.Run.Once
import Flowgraph.Proofs.Run.Dispatch
import Flowgraph.Proofs.Run.Brackets
import Flowgraph.Proofs.Run.Grammar
import Flowgraph.Proofs.Run.Flow
import Flowgraph.Proofs.Run.Endings
import Flowgraph.Proofs.Run.Numbering
import Flowgraph.Proofs.Run.Mirror
import Flowgraph.Proofs.Run.Bystanders
import Flowgraph.Proofs.Run.Shadow
import Flowgraph.Proofs.Run.Alone
import Flowgraph.Proofs.Service.FreeId
import Flowgraph.Proofs.Service.History
import Flowgraph.Proofs.Service.Bookkeeping
import Flowgraph.Proofs.Service.Agreement
import Flowgraph.Proofs.Service.Isolation
import Flowgraph.Proofs.Run.Recursion
import Flowgraph.Proofs.Run.Sequential
import Flowgraph.Proofs.Run.InSequence
import Flowgraph.Proofs.Run.Panics
import Flowgraph.Proofs.Run.Line
import Flowgraph.Proofs.Run.Homes
import Flowgraph.Proofs.Run.Containment
import Flowgraph.Proofs.Wire.RoundTrip
import Flowgraph.Proofs.Wire.Yaml
import Flowgraph.Proofs.Binary64.Nearest
import Flowgraph.Proofs.Decimal.ReadBack
import Flowgraph.Proofs.Canvas.Labels
import Flowgraph.Proofs.Canvas.Closed
import Flowgraph.Proofs.Definition.Findings
import Flowgraph.Proofs.Definition.DeadConditions
import Flowgraph.Proofs.Run.Inward
import Flowgraph.Proofs.Run.Flaws
import Flowgraph.Proofs.Run.Rootless
import Flowgraph.Proofs.Run.CleanFailure
import Flowgraph.Proofs.Binary64.Integers
import Flowgraph.Proofs.Condition.Coherence
import Flowgraph.Proofs.Condition.Integers
import Flowgraph.Proofs.Variable.Reference
import Flowgraph.Proofs.Variable.Resolution
import Flowgraph.Proofs.Activity.Registration
import Flowgraph.Proofs.Activity.Literals
