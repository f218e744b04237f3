import TrackPlan.Error
import TrackPlan.Node

/-!
# The track graph

Nodes are known by their position in the layout, edges by their position in the list of edges. The
edges are listed by the node that they leave and then by slot, so those of one node are neighbours.
-/

namespace TrackPlan

/-- A node of the graph. -/
structure Node where
  id : Nat
  /-- Empty for a dummy. -/
  name : String
  /-- The same place in the opposite direction. -/
  reverse : Nat
  kind : Kind Nat
  /-- The edges that leave it, in slot order. -/
  edges : List Nat
  deriving DecidableEq, Repr

/-- An edge of the graph. -/
structure Edge where
  id : Nat
  src : Nat
  dest : Nat
  /-- 0 straight ahead, 1 the curved way of a branch. -/
  slot : Nat
  reverseKind : ReverseKind
  /-- In millimeters. -/
  distance : UInt32
  deriving DecidableEq, Repr

/-- The position of an edge among the slots of all nodes. -/
def Edge.slotIndex (e : Edge) : Nat := 2 * e.src + e.slot

/-- Whether the edge is the curved way of a branch. -/
def Edge.isCurved (e : Edge) : Bool := e.slot == 1

/-- The address of a sensor, 0 for any other node. -/
def Node.address (n : Node) : UInt32 := n.kind.address?.getD 0

/-- A graph of nodes and edges. -/
structure Graph where
  nodes : Array Node
  edges : Array Edge
  /-- The names of the nodes that are no dummies, each with its position. -/
  places : List (String × Nat)
  sensorCount : Nat
  /-- The places kept for sensors. -/
  sensorSlots : Nat
  deriving DecidableEq, Repr

namespace Graph

/-- The node at a position. -/
def node? (g : Graph) (id : Nat) : Option Node := g.nodes[id]?

/-- The edge at a position. -/
def edge? (g : Graph) (id : Nat) : Option Edge := g.edges[id]?

/-- The number of nodes, dummies included. -/
def nodeCount (g : Graph) : Nat := g.nodes.size

/-- The number of edges. -/
def edgeCount (g : Graph) : Nat := g.edges.size

/-- The number of slots of all nodes. -/
def edgeSlotCount (g : Graph) : Nat := 2 * g.nodeCount

/-- The position of a name. -/
def nodeId? (g : Graph) (name : String) : Option Nat := g.places.lookup name

/-- The node of a name. -/
def nodeByName? (g : Graph) (name : String) : Option Node := (g.nodeId? name).bind g.node?

/-- A text for a node that has no name. -/
def idText (id : Nat) : String := s!"n{id}"

/-- The name of a node, or its position as a text if there is no such node. -/
def nameOf (g : Graph) (id : Nat) : String :=
  match g.node? id with
  | some n => n.name
  | none => idText id

/-- The reverse of a node. -/
def reverse? (g : Graph) (id : Nat) : Option Nat := (g.node? id).map Node.reverse

/-- The edges that leave a node, in slot order. -/
def outgoing (g : Graph) (id : Nat) : List Edge :=
  match g.node? id with
  | some n => n.edges.filterMap g.edge?
  | none => []

/-- The first edge from one node to another. -/
def edgeBetween? (g : Graph) (src dest : Nat) : Option Nat :=
  ((g.outgoing src).find? (·.dest == dest)).map Edge.id

/-- The edge between two named nodes; `line` is the line that names them. -/
def edgeFromNames (g : Graph) (src dest : String) (line : Nat) : Except CompileError Nat :=
  let found := do g.edgeBetween? (← g.nodeId? src) (← g.nodeId? dest)
  match found with
  | some edge => .ok edge
  | none => .error (.unknownEdge line src dest)

/-- The same stretch of track travelled the other way. -/
def reverseEdge? (g : Graph) (id : Nat) : Option Nat := do
  let edge ← g.edge? id
  g.edgeBetween? (← g.reverse? edge.dest) (← g.reverse? edge.src)

/-- The edges that leave the same node as the given one, itself included. -/
def siblings (g : Graph) (id : Nat) : List Nat :=
  match g.edge? id with
  | some edge => (g.outgoing edge.src).map Edge.id
  | none => []

/-- Whether there is such a node and it is a sensor. -/
def isSensor (g : Graph) (id : Nat) : Bool :=
  match g.node? id with
  | some n => n.kind.tag == .sensor
  | none => false

/-- Whether there is such a node and it is a branch. -/
def isBranch (g : Graph) (id : Nat) : Bool :=
  match g.node? id with
  | some n => n.kind.isBranch
  | none => false

end Graph

end TrackPlan
