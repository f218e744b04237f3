import TrackPlan.Distance
import TrackPlan.Options

/-!
# From declarations to a graph

Linking checks the limits, gives every placed node its position, looks up every name, lays the
edges, and attaches the distances.
-/

namespace TrackPlan

/-- The limits on sensor addresses and on nodes. They are checked before any place is made, so a
huge address fails here. -/
def Registry.checkCapacity (r : Registry) (o : Options) : Except CompileError Unit := do
  if let some limit := o.maxSensorAddress then
    if let some (address, index) := r.sensors.find? (fun s => limit < s.1) then
      if let some d := r.decls[index]? then
        throw (.addressOutOfRange d.line d.name address limit)
  if o.nodeLimit < r.slotCount then
    throw (.tooManyNodes r.slotCount o.nodeLimit)

/-- The node of a placed declaration; its edges are laid later. -/
def Decl.resolve (d : Decl) (places : List (String × Nat)) (id : Nat) :
    Except CompileError Node := do
  let lookup (name : String) : Except CompileError Nat :=
    match places.lookup name with
    | some position => .ok position
    | none => .error (.unknownName d.line name)
  let reverse ← lookup d.reverse
  let kind ← d.kind.traverse lookup
  return ⟨id, d.name, reverse, kind, []⟩

/-- The node of an unused sensor address; it is its own reverse. -/
def Node.dummy (id : Nat) : Node := ⟨id, "", id, .dummy, []⟩

/-- The nodes of a layout. -/
def resolveNodes (places : List (String × Nat)) (placed : List (Option Decl)) :
    Except CompileError (List Node) :=
  placed.zipIdx.mapM fun (decl?, id) =>
    match decl? with
    | some d => d.resolve places id
    | none => .ok (Node.dummy id)

/-- Numbers the edges of each node, from `next` on. -/
def numberEdges : (next : Nat) → List Node → List Node
  | _, [] => []
  | next, n :: rest =>
    let count := n.kind.successors.length
    { n with edges := List.range' next count } :: numberEdges (next + count) rest

/-- Which way of the reverse of `dest` leads back to the reverse of `src`. -/
def reverseKind (nodes : Array Node) (src dest : Nat) : ReverseKind :=
  let reverseOf (id : Nat) : Option Nat := nodes[id]?.map Node.reverse
  let straight? := do (← nodes[← reverseOf dest]?).kind.straight?
  match straight? with
  | none => .ahead
  | some straight => if reverseOf src = some straight then .straight else .curved

/-- The edges of all nodes, each with the node it leaves, its slot and the node it leads to. -/
def edgeEnds (nodes : List Node) : List (Nat × Nat × Nat) :=
  nodes.flatMap fun n => n.kind.successors.zipIdx.map fun (dest, slot) => (n.id, slot, dest)

/-- Lays the edges, all without distances. -/
def layEdges (nodes : Array Node) : Array Edge :=
  ((edgeEnds nodes.toList).zipIdx.map fun ((src, slot, dest), id) =>
    ⟨id, src, dest, slot, reverseKind nodes src dest, 0⟩).toArray

/-- The graph of a registry, before distances. -/
def Registry.wire (r : Registry) : Except CompileError Graph := do
  let places := r.places
  let nodes := (numberEdges 0 (← resolveNodes places r.placed)).toArray
  return ⟨nodes, layEdges nodes, places, r.sensors.length, r.sensorSlots⟩

/-- Links a registry to a graph. -/
def Registry.link (r : Registry) (o : Options) : Report Graph := do
  Report.ofExcept (r.checkCapacity o)
  let g ← Report.ofExcept r.wire
  let t ← r.distanceTable g.places
  let (g', outcome) := g.attach t o.requireDistances
  outcome
  return g'

end TrackPlan
