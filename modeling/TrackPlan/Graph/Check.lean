import TrackPlan.Graph.Basic

/-!
# Checks on a linked graph

Every track can be travelled both ways: reverses come in pairs, every node owns the edges it lists,
and every edge has a reverse edge.
-/

namespace TrackPlan.Graph

/-- Applies a check to each element up to the first failure. -/
def firstFailure {α : Type} (check : α → Option CompileError) (xs : List α) :
    Except CompileError Unit :=
  match xs.findSome? check with
  | some e => .error e
  | none => .ok ()

/-- Every node is the reverse of its reverse. -/
def checkReverseSymmetry (g : Graph) : Except CompileError Unit :=
  firstFailure (fun n =>
    let back := g.reverse? n.reverse
    if back = some n.id then none
    else some (.asymmetricReverse n.name ((back.map g.nameOf).getD ""))) g.nodes.toList

/-- Every edge that a node lists leaves that node. -/
def checkEdgeOwnership (g : Graph) : Except CompileError Unit :=
  firstFailure (fun n =>
    n.edges.findSome? fun edge =>
      let claimed := (g.edge? edge).map Edge.src
      if claimed = some n.id then none
      else some (.foreignEdge edge ((claimed.map g.nameOf).getD "") n.name)) g.nodes.toList

/-- Every edge has a reverse edge. -/
def checkReversibleEdges (g : Graph) : Except CompileError Unit :=
  firstFailure (fun e =>
    match g.reverseEdge? e.id with
    | some _ => none
    | none =>
      let reverseOf (id : Nat) : Nat := (g.reverse? id).getD id
      some (.strandedEdge (g.nameOf e.src) (g.nameOf e.dest) (g.nameOf (reverseOf e.dest))
        (g.nameOf (reverseOf e.src)))) g.edges.toList

/-- All checks, in this order. -/
def check (g : Graph) : Except CompileError Unit := do
  g.checkReverseSymmetry
  g.checkEdgeOwnership
  g.checkReversibleEdges

end TrackPlan.Graph
