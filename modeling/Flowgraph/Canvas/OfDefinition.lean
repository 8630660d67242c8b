import Flowgraph.Canvas.Basic

/-!
# Drawing definitions

The nodes of a definition stand one below the other in the order of its steps, between a
node for the start and one for the end. The start leads to the root, and the last step to
the end if nothing comes after it. The two extra nodes are called `start` and `end` unless
steps are called so.
-/

set_option autoImplicit false

namespace Flowgraph.Canvas

/-- The number with this value. -/
def coordinate (n : Nat) : Binary64 := (Binary64.ofInt? n).getD .zero

/-- The place of the node at a height. -/
def placeAt (y : Nat) : Position := ⟨coordinate 250, coordinate y⟩

/-- The height of the node for the step with an index. -/
def heightOf (index : Nat) : Nat := 150 + 120 * index

/-- A name that no step has: `base`, with as many suffixes as it takes but at most `fuel`. -/
def freeId (steps : List Step) : Nat → String → String
  | 0, base => base
  | fuel + 1, base =>
    if steps.any (·.id = base) then freeId steps fuel (base ++ "-node") else base

/-- The id of an extra node. -/
def extraId (d : Definition) (base : String) : String := freeId d.steps d.steps.length base

/-- A node for the start or the end. -/
def terminal (id label : String) (kind : NodeKind) (y : Nat) : Node :=
  ⟨id, kind.shape, placeAt y, { label, kind }⟩

/-- Arguments, if there are any. -/
def given (arguments : Arguments) : Option Arguments :=
  if arguments.isEmpty then none else some arguments

/-- What the node of a step holds. -/
def dataOf (s : Step) : NodeData :=
  let label := s.name.getD s.id
  match s.work with
  | .activity call =>
    ⟨label, some call.activity, given call.arguments, call.resultVariable, .activity⟩
  | .condition choice => { label, arguments := given choice.arguments, kind := .condition }
  | .parallel _ => { label, kind := .parallel }
  | .sequence _ => { label, kind := .sequence }

/-- The node of a step. -/
def nodeOf (s : Step) (y : Nat) : Node :=
  ⟨s.id, (dataOf s).kind.shape, placeAt y, dataOf s⟩

/-- An edge between two nodes. -/
def edge (source target : String) (handle : Option String := none)
    (label : Option String := none) : Edge :=
  ⟨source ++ "-" ++ target, source, target, handle, label⟩

/-- A word with a number that counts from one. -/
def counted (word : String) (index : Nat) : String := word ++ " " ++ toString (index + 1)

/-- The edges for the work of a step. -/
def edgesOfWork (id : String) : Work → List Edge
  | .activity _ => []
  | .condition choice =>
    (choice.onSuccess.map fun target =>
      edge id target (some successHandle) (some successLabel)).toList ++
    (choice.onFailure.map fun target =>
      edge id target (some failureHandle) (some failureLabel)).toList
  | .parallel branches =>
    branches.mapIdx fun i target => edge id target none (some (counted "branch" i))
  | .sequence steps =>
    steps.mapIdx fun i target => edge id target (some stepHandle) (some (counted "step" i))

/-- The edge to the next step. Only activities need no handle for it. -/
def nextEdge (s : Step) : List Edge :=
  (s.next.map fun target => edge s.id target (match s.work with
    | .activity _ => none
    | _ => some nextHandle)).toList

/-- The edges of a step. -/
def edgesOf (s : Step) : List Edge := edgesOfWork s.id s.work ++ nextEdge s

/-- Whether nothing is done after a step, as far as the canvas shows. -/
def isLast (s : Step) : Bool :=
  s.next.isNone && match s.work with
    | .condition choice => choice.onSuccess.isNone
    | _ => true

/-- Draws a definition. -/
def ofDefinition (d : Definition) : Canvas :=
  let startId := extraId d startName
  let endId := extraId d endName
  { name := d.name
    description := d.description
    nodes := terminal startId "Start" .start 50 ::
      d.steps.mapIdx (fun i s => nodeOf s (heightOf i)) ++
      [terminal endId "End" .finish (heightOf d.steps.length)]
    edges := (if d.root = "" then [] else [edge startId d.root]) ++
      d.steps.flatMap edgesOf ++
      ((d.steps.getLast?.filter isLast).map fun s => edge s.id endId).toList }

end Flowgraph.Canvas
