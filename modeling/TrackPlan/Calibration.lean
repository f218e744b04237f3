import TrackPlan.Graph.Basic
import TrackPlan.Registry

/-!
# The calibration loop

The calibration records may name a loop of nodes. A lap around it tells, for every sensor, how far
the sensor before it is, and for every branch, which way the loop takes.
-/

namespace TrackPlan

/-- A sensor on the loop and the distance from the sensor before it, in millimeters. -/
structure LoopSensor where
  node : Nat
  distance : Nat
  deriving DecidableEq, Repr

/-- A branch on the loop and whether the loop takes its curved way. -/
structure LoopBranch where
  node : Nat
  curved : Bool
  deriving DecidableEq, Repr

/-- A loop of nodes. -/
structure Loop where
  nodes : List Nat
  /-- The edge from each node to the next, the last one back to the first. -/
  edges : List Nat
  /-- Sensors in the order of the loop. -/
  sensors : List LoopSensor
  /-- Branches in the order in which they first occur. -/
  branches : List LoopBranch
  deriving DecidableEq, Repr

/-- The length of an edge in millimeters, 0 if there is no such edge. -/
def Graph.edgeLength (g : Graph) (edge : Nat) : Nat :=
  match g.edge? edge with
  | some e => e.distance.toNat
  | none => 0

/-- The length of the loop. -/
def Loop.totalDistance (l : Loop) (g : Graph) : Nat := (l.edges.map g.edgeLength).foldr (· + ·) 0

namespace Calibration

/-- The steps without a last one that only repeats the first. -/
def openSteps (steps : List LoopStep) : List LoopStep :=
  if 1 < steps.length ∧ steps.head?.map LoopStep.node = steps.getLast?.map LoopStep.node then
    steps.dropLast
  else steps

/-- The node a step names. -/
def locate (g : Graph) (s : LoopStep) : Except CompileError Nat :=
  match g.nodeId? s.node with
  | some id => .ok id
  | none => .error (.unknownName s.line s.node)

/-- The edge from one node of the loop to the next; `line` is the line of the first. -/
def edgeOn (g : Graph) (line src dest : Nat) : Except CompileError Nat :=
  match g.edgeBetween? src dest with
  | some edge => .ok edge
  | none => .error (.invalidLoop line (.gap (g.nameOf src) (g.nameOf dest)))

/-- The edges around a loop of nodes. -/
def edgesAround (g : Graph) (lines nodes : List Nat) : Except CompileError (List Nat) :=
  (lines.zip (nodes.zip nodes.rotateLeft)).mapM fun (line, src, dest) => edgeOn g line src dest

/-- The branches with one more; a branch that is listed keeps its place and goes the new way. -/
def noteBranch (node : Nat) (curved : Bool) : List LoopBranch → List LoopBranch
  | [] => [⟨node, curved⟩]
  | b :: rest =>
    if b.node = node then ⟨node, curved⟩ :: rest else b :: noteBranch node curved rest

/-- The branches of a lap, each with the way taken at its last occurrence. -/
def branchesOf (g : Graph) (lap : List (Nat × Nat)) : List LoopBranch :=
  lap.foldl (fun branches (node, edge) =>
    match g.edge? edge with
    | some e => if g.isBranch node then noteBranch node e.isCurved branches else branches
    | none => branches) []

/-- The sensors of a lap, each with the distance travelled since the one before; `span` has been
travelled already. Also what is travelled after the last sensor. -/
def measureLap (g : Graph) : (span : Nat) → List (Nat × Nat) → List LoopSensor × Nat
  | span, [] => ([], span)
  | span, (node, edge) :: rest =>
    if g.isSensor node then
      let (sensors, left) := measureLap g (g.edgeLength edge) rest
      (⟨node, span⟩ :: sensors, left)
    else measureLap g (span + g.edgeLength edge) rest

/-- The loop of the calibration records, or `none` if there are none. -/
def extract (g : Graph) (steps : List LoopStep) : Except CompileError (Option Loop) := do
  match openSteps steps with
  | [] => return none
  | first :: rest =>
    let nodes ← (first :: rest).mapM (locate g)
    let edges ← edgesAround g ((first :: rest).map LoopStep.line) nodes
    let lap := nodes.zip edges
    match measureLap g 0 lap with
    | ([], _) => throw (.invalidLoop first.line .noSensor)
    | (head :: sensors, left) =>
      let head := { head with distance := head.distance + left }
      return some ⟨nodes, edges, head :: sensors, branchesOf g lap⟩

end Calibration

end TrackPlan
