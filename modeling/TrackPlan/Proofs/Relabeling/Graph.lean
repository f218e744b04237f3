import TrackPlan.Proofs.Graph.Adjacency
import TrackPlan.Proofs.Relabeling.Basic

/-!
# Looking things up in a relabeled graph

Only nodes have names, and everything else that is asked of a graph is asked by position. So a
relabeled graph answers as the graph does, apart from the names in the answer.
-/

namespace TrackPlan.Graph

variable {ρ : Relabeling} {g : Graph}

@[simp] theorem node?_relabel (i : Nat) :
    (g.relabel ρ).node? i = (g.node? i).map (Node.relabel ρ) :=
  Array.getElem?_map

@[simp] theorem edge?_relabel (k : Nat) : (g.relabel ρ).edge? k = g.edge? k := rfl

@[simp] theorem edges_relabel : (g.relabel ρ).edges = g.edges := rfl

@[simp] theorem toList_nodes_relabel :
    (g.relabel ρ).nodes.toList = g.nodes.toList.map (Node.relabel ρ) :=
  Array.toList_map

@[simp] theorem reverse?_relabel (i : Nat) : (g.relabel ρ).reverse? i = g.reverse? i := by
  unfold reverse?
  rw [node?_relabel, Option.map_map]
  rfl

@[simp] theorem outgoing_relabel (i : Nat) : (g.relabel ρ).outgoing i = g.outgoing i := by
  unfold outgoing
  rw [node?_relabel]
  cases g.node? i <;> rfl

@[simp] theorem edgeBetween?_relabel (a b : Nat) :
    (g.relabel ρ).edgeBetween? a b = g.edgeBetween? a b := by
  unfold edgeBetween?
  rw [outgoing_relabel]

@[simp] theorem reverseEdge?_relabel (k : Nat) :
    (g.relabel ρ).reverseEdge? k = g.reverseEdge? k := by
  unfold reverseEdge?
  simp only [edge?_relabel, reverse?_relabel, edgeBetween?_relabel]

@[simp] theorem siblings_relabel (k : Nat) : (g.relabel ρ).siblings k = g.siblings k := by
  unfold siblings
  simp only [edge?_relabel, outgoing_relabel]

@[simp] theorem isSensor_relabel (i : Nat) : (g.relabel ρ).isSensor i = g.isSensor i := by
  unfold isSensor
  rw [node?_relabel]
  cases g.node? i <;> rfl

@[simp] theorem isBranch_relabel (i : Nat) : (g.relabel ρ).isBranch i = g.isBranch i := by
  unfold isBranch
  rw [node?_relabel]
  cases g.node? i <;> rfl

/-! ## Names -/

theorem nodeId?_relabel (hρ : ρ.Faithful) (s : String) :
    (g.relabel ρ).nodeId? (ρ.name s) = g.nodeId? s :=
  hρ.lookup_places g.places s

/-- The name of a node; what stands for the name where there is no node is not relabeled. -/
theorem nameOf_relabel {i : Nat} (hi : i < g.nodeCount) :
    (g.relabel ρ).nameOf i = ρ.name (g.nameOf i) := by
  obtain ⟨n, hn⟩ := WellFormed.exists_node hi
  unfold nameOf
  rw [node?_relabel, hn]
  rfl

theorem edgeFromNames_relabel (hρ : ρ.Faithful) (src dest : String) (line : Nat) :
    (g.relabel ρ).edgeFromNames (ρ.name src) (ρ.name dest) (ρ.line line) =
      ρ.result id (g.edgeFromNames src dest line) := by
  unfold edgeFromNames
  simp only [nodeId?_relabel hρ, edgeBetween?_relabel]
  split <;> rfl

end TrackPlan.Graph
