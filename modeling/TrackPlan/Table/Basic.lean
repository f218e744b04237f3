import TrackPlan.Compile

/-!
# Track tables

A track table is a compiled track laid out flat, as a controller loads it: a list of nodes by their
position, each with the edges that leave it, and what the calibration loop tells.
-/

namespace TrackPlan

/-- An edge as its source node lists it. -/
structure TableEdge where
  /-- 0 straight ahead, 1 the curved way. -/
  slot : Nat
  dest : Nat
  reverseKind : ReverseKind
  /-- The position of the reverse edge among the slots of all nodes. -/
  reverseSlot : Nat
  distance : Nat
  mutexGroup : Nat
  mutexSize : Nat
  deriving DecidableEq, Repr

/-- A node with the edges that leave it. -/
structure TableNode where
  index : Nat
  kind : Tag
  name : String
  /-- The address of a sensor, the switch number of a branch or a merge, else 0. -/
  num : Nat
  reverse : Nat
  edges : List TableEdge
  deriving DecidableEq, Repr

/-- What the calibration loop tells about its sensors and branches. -/
structure TableLoop where
  sensors : List LoopSensor
  branches : List LoopBranch
  deriving DecidableEq, Repr

/-- A compiled track laid out flat, under a name. -/
structure Table where
  name : String
  nodeCount : Nat
  sensorCount : Nat
  nodes : List TableNode
  loop : Option TableLoop
  deriving DecidableEq, Repr

namespace Table

/-- The entry of an edge. Every edge of a compiled track has a reverse edge. -/
def edgeOf (t : Track) (e : Edge) : TableEdge where
  slot := e.slot
  dest := e.dest
  reverseKind := e.reverseKind
  reverseSlot :=
    match (t.graph.reverseEdge? e.id).bind t.graph.edge? with
    | some r => r.slotIndex
    | none => e.slotIndex
  distance := e.distance.toNat
  mutexGroup := (t.mutexes.groupOf? e.id).getD 0
  mutexSize := t.mutexes.groupSize e.id

/-- The entry of a node. -/
def nodeOf (t : Track) (n : Node) : TableNode where
  index := n.id
  kind := n.kind.tag
  name := n.name
  num := ((n.kind.address?.or n.kind.switchNumber?).map UInt32.toNat).getD 0
  reverse := n.reverse
  edges := (t.graph.outgoing n.id).map (edgeOf t)

/-- The table of a compiled track. -/
def ofTrack (name : String) (t : Track) : Table where
  name := name
  nodeCount := t.graph.nodeCount
  sensorCount := t.graph.sensorCount
  nodes := t.graph.nodes.toList.map (nodeOf t)
  loop := t.loop.map fun l => ⟨l.sensors, l.branches⟩

/-- The first node of a name; a dummy has none. -/
def nodeByName? (t : Table) (name : String) : Option TableNode :=
  t.nodes.find? fun n => !n.name.isEmpty && n.name == name

/-- The number of edges of all nodes. -/
def edgeCount (t : Table) : Nat := (t.nodes.map (·.edges.length)).foldr (· + ·) 0

end Table

end TrackPlan
