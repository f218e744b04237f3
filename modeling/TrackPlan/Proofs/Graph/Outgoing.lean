import Mathlib.Algebra.Order.BigOperators.Group.List
import Mathlib.Algebra.Order.Ring.Nat
import Mathlib.Data.List.Sort
import TrackPlan.Proofs.Graph.FirstEdge
import TrackPlan.Proofs.Registry.Capacity

/-!
# The edges, node by node

The edges that leave a node fill its slots in order (`WellFormed.map_slot_outgoing`), and those of
all nodes, one node after the other, are the edges of the graph (`WellFormed.flatMap_outgoing`). So
there are at most two edges for every node (`WellFormed.edgeCount_le`).
-/

namespace TrackPlan.Graph

variable {g : Graph} {a : Nat} {n : Node}

/-- A node has one edge in each slot of its kind. -/
theorem WellFormed.map_slot_outgoing (hg : g.WellFormed) (hn : g.node? a = some n) :
    (g.outgoing a).map Edge.slot = List.range n.kind.tag.edgeCount := by
  apply List.Pairwise.eq_of_mem_iff (List.pairwise_map.2 hg.outgoing_ascending)
    List.pairwise_lt_range
  intro slot
  rw [List.mem_map, List.mem_range, ← Kind.length_successors]
  constructor
  · rintro ⟨e, he, rfl⟩
    obtain ⟨hid, rfl⟩ := hg.mem_outgoing_iff.1 he
    obtain ⟨m, hm, -, hs⟩ := hg.exists_src hid
    rw [hn, Option.some.injEq] at hm
    exact hm ▸ (List.getElem?_eq_some_iff.1 hs).1
  · intro hslot
    obtain ⟨k, e, -, he, hsrc, rfl, -⟩ := hg.exists_edge hn (List.getElem?_eq_getElem hslot)
    exact ⟨e, hg.mem_outgoing_iff.2 ⟨by rw [hg.edge_id he, he], hsrc⟩, rfl⟩

theorem WellFormed.map_id_edges (hg : g.WellFormed) :
    g.edges.toList.map Edge.id = List.range g.edgeCount := by
  refine List.ext_getElem? fun k => ?_
  rw [List.getElem?_map, Array.getElem?_toList]
  show (g.edge? k).map Edge.id = _
  cases he : g.edge? k with
  | none =>
    have hk : g.edgeCount ≤ k := Array.getElem?_eq_none_iff.1 he
    rw [List.getElem?_eq_none (by simpa using hk), Option.map_none]
  | some e =>
    have hk : k < g.edgeCount := (Array.getElem?_eq_some_iff.1 he).1
    rw [List.getElem?_range hk, Option.map_some, hg.edge_id he]

/-- The edges that leave a node are those it lists. -/
theorem WellFormed.map_id_outgoing (hg : g.WellFormed) (hn : g.node? a = some n) :
    (g.outgoing a).map Edge.id = n.edges := by
  have hedge : ∀ k ∈ n.edges, (g.edge? k).map Edge.id = some k := by
    intro k hk
    obtain ⟨slot, hslot⟩ := List.getElem?_of_mem hk
    obtain ⟨e, he, -, -⟩ := (hg.slot_iff hn).1 hslot
    rw [he, Option.map_some, hg.edge_id he]
  unfold outgoing
  rw [hn]
  dsimp only
  rw [List.map_filterMap, List.filterMap_congr hedge, List.filterMap_some]

/-- The edges that leave a node lead to its successors. -/
theorem WellFormed.map_dest_outgoing (hg : g.WellFormed) (hn : g.node? a = some n) :
    (g.outgoing a).map Edge.dest = n.kind.successors := by
  have hslots := hg.map_slot_outgoing hn
  refine List.ext_getElem? fun i => ?_
  rw [List.getElem?_map]
  cases he : (g.outgoing a)[i]? with
  | none =>
    have hlength := congrArg List.length hslots
    rw [List.length_map, List.length_range, ← Kind.length_successors] at hlength
    rw [List.getElem?_eq_none (hlength ▸ List.getElem?_eq_none_iff.1 he), Option.map_none]
  | some e =>
    obtain ⟨hid, hsrc⟩ := hg.mem_outgoing_iff.1 (List.mem_of_getElem? he)
    obtain ⟨m, hm, -, hdest⟩ := hg.exists_src hid
    rw [hsrc, hn, Option.some.injEq] at hm
    have hslot := congrArg (·[i]?) hslots
    rw [List.getElem?_map, he, Option.map_some, eq_comm, List.getElem?_eq_some_iff] at hslot
    obtain ⟨hi, hslot⟩ := hslot
    rw [List.getElem_range] at hslot
    rw [Option.map_some, hm, hslot, hdest]

/-! ## All edges -/

/-- The order of edges: by source, then by slot. -/
def EdgeBefore (e f : Edge) : Prop := e.src < f.src ∨ e.src = f.src ∧ e.slot < f.slot

instance : Std.Asymm EdgeBefore where
  asymm e f h := by
    unfold EdgeBefore at *
    omega

theorem WellFormed.pairwise_edges (hg : g.WellFormed) :
    g.edges.toList.Pairwise EdgeBefore := by
  rw [List.pairwise_iff_getElem]
  intro j k hj hk hjk
  have hget : ∀ i (hi : i < g.edges.toList.length), g.edge? i = some g.edges.toList[i] :=
    fun i hi => Array.getElem?_toList.symm.trans (List.getElem?_eq_getElem hi)
  exact hg.edges_ascending (hget j hj) (hget k hk) hjk

theorem WellFormed.pairwise_outgoing (hg : g.WellFormed) :
    (g.nodes.toList.flatMap fun n => g.outgoing n.id).Pairwise EdgeBefore := by
  have hid : ∀ i (hi : i < g.nodes.toList.length), g.nodes.toList[i].id = i := fun i hi =>
    hg.node_id (Array.getElem?_toList.symm.trans (List.getElem?_eq_getElem hi))
  have hnodes : g.nodes.toList.Pairwise fun n m => n.id < m.id := by
    rw [List.pairwise_iff_getElem]
    intro i j hi hj hij
    rw [hid i hi, hid j hj]
    exact hij
  rw [List.pairwise_flatMap]
  refine ⟨fun n _ => hg.outgoing_ascending.imp_of_mem fun he hf hslot => ?_,
    hnodes.imp fun hlt e he f hf => ?_⟩
  · refine Or.inr ⟨?_, hslot⟩
    rw [(hg.mem_outgoing_iff.1 he).2, (hg.mem_outgoing_iff.1 hf).2]
  · refine Or.inl ?_
    rwa [(hg.mem_outgoing_iff.1 he).2, (hg.mem_outgoing_iff.1 hf).2]

/-- The edges that leave the nodes, one node after the other, are the edges of the graph. -/
theorem WellFormed.flatMap_outgoing (hg : g.WellFormed) :
    (g.nodes.toList.flatMap fun n => g.outgoing n.id) = g.edges.toList := by
  apply List.Pairwise.eq_of_mem_iff hg.pairwise_outgoing hg.pairwise_edges
  intro e
  rw [List.mem_flatMap]
  constructor
  · rintro ⟨n, -, he⟩
    have hid := (hg.mem_outgoing_iff.1 he).1
    exact List.mem_of_getElem? (Array.getElem?_toList.trans hid)
  · intro he
    obtain ⟨k, hk⟩ := List.getElem?_of_mem he
    rw [Array.getElem?_toList] at hk
    obtain ⟨n, hn⟩ := exists_node (hg.src_lt hk)
    refine ⟨n, List.mem_of_getElem? (Array.getElem?_toList.trans hn), ?_⟩
    exact hg.mem_outgoing_iff.2 ⟨by rw [hg.edge_id hk]; exact hk, (hg.node_id hn).symm⟩

/-! ## How many edges there are -/

/-- No node has more than two edges. -/
theorem WellFormed.length_outgoing_le (hg : g.WellFormed) (hn : g.node? a = some n) :
    (g.outgoing a).length ≤ 2 := by
  have hlength := congrArg List.length (hg.map_slot_outgoing hn)
  rw [List.length_map, List.length_range] at hlength
  rw [hlength]
  cases n.kind.tag <;> decide

theorem WellFormed.edgeCount_le (hg : g.WellFormed) : g.edgeCount ≤ 2 * g.nodeCount := by
  calc g.edgeCount
      = (g.nodes.toList.flatMap fun n => g.outgoing n.id).length :=
        congrArg List.length hg.flatMap_outgoing.symm
    _ = (g.nodes.toList.map fun n => (g.outgoing n.id).length).sum := List.length_flatMap
    _ ≤ (g.nodes.toList.map fun n => (g.outgoing n.id).length).length • 2 := by
        apply List.sum_le_card_nsmul
        rw [List.forall_mem_map, forall_nodes_iff]
        intro i n hn
        rw [hg.node_id hn]
        exact hg.length_outgoing_le hn
    _ = 2 * g.nodeCount := by
        rw [List.length_map, Array.length_toList]
        exact Nat.mul_comm g.nodes.size 2

/-- A graph within the limit on nodes has fewer edges than 32 bits can number. -/
theorem WellFormed.edgeCount_lt (hg : g.WellFormed) (hn : g.nodeCount ≤ nodeCeiling) :
    g.edgeCount < UInt32.size - 1 := by
  have hedges := hg.edgeCount_le
  unfold nodeCeiling at hn
  simp only [UInt32.size]
  omega

end TrackPlan.Graph

namespace TrackPlan.Registry

variable {r : Registry} {g : Graph} {o : Options}

/-- A linked graph has no more nodes than there may be. -/
theorem nodeCount_le_of_link (hl : (r.link o).result = .ok g) :
    g.nodeCount ≤ nodeCeiling := by
  rw [(wires_of_link hl).nodeCount_eq]
  exact Nat.le_trans (slotCount_le (link_eq_ok.1 hl).1) o.nodeLimit_le

end TrackPlan.Registry
