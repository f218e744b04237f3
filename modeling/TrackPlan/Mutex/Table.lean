import TrackPlan.Mutex.Slots

/-!
# Mutex groups

Every mutex record seeds a closed set of edges. Sets that overlap are merged, and every edge that no
record reaches is a group by itself, so the groups part the edges of the graph.
-/

namespace TrackPlan

/-- Edges that must not be reserved together. -/
structure MutexGroup where
  id : Nat
  members : EdgeSet
  /-- Whether a mutex record asks for the group. -/
  declared : Bool
  deriving DecidableEq, Repr

/-- Whether the edge is in the group. -/
def MutexGroup.contains (group : MutexGroup) (edge : Nat) : Bool :=
  EdgeSet.bisect edge group.members

/-- Every edge in a group. -/
structure MutexTable where
  groups : Array MutexGroup
  /-- The group of each edge. -/
  groupOf : Array Nat
  deriving DecidableEq, Repr

namespace MutexTable

/-- What an edge has for its group before it is in one: the last number of 32 bits. -/
def ungrouped : Nat := UInt32.size - 1

/-- The table without groups. -/
def start (edgeCount : Nat) : MutexTable := ⟨#[], Array.replicate edgeCount ungrouped⟩

/-- Adds a group of the given edges. -/
def push (t : MutexTable) (members : EdgeSet) (declared : Bool) : MutexTable :=
  let id := t.groups.size
  ⟨t.groups.push ⟨id, members, declared⟩,
    members.foldl (fun groupOf edge => groupOf.setIfInBounds edge id) t.groupOf⟩

/-- Adds the edge as a group of its own, if it is in no group. -/
def pushAlone (t : MutexTable) (edge : Nat) : MutexTable :=
  if t.groupOf[edge]? = some ungrouped then t.push [edge] false else t

/-- The table of declared sets: they come first, then each other edge alone. -/
def ofSets (edgeCount : Nat) (sets : List EdgeSet) : MutexTable :=
  (List.range edgeCount).foldl pushAlone (sets.foldl (·.push · true) (start edgeCount))

/-- The table of a graph and its mutex records. -/
def build (g : Graph) (decls : List MutexDecl) : Report MutexTable :=
  (fun m => ofSets g.edgeCount m.live) <$> g.mutexSlots {} decls

/-- The group at a position. -/
def group? (t : MutexTable) (id : Nat) : Option MutexGroup := t.groups[id]?

/-- The group of an edge. -/
def groupOf? (t : MutexTable) (edge : Nat) : Option Nat := t.groupOf[edge]?

/-- How many edges are in the group of an edge, 0 if there is no such edge. -/
def groupSize (t : MutexTable) (edge : Nat) : Nat :=
  match (t.groupOf? edge).bind t.group? with
  | some group => group.members.length
  | none => 0

/-- How many groups a mutex record asks for. -/
def declaredCount (t : MutexTable) : Nat := t.groups.countP MutexGroup.declared

end MutexTable

end TrackPlan
