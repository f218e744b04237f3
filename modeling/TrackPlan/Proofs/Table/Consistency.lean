import TrackPlan.Proofs.Calibration.Rotation
import TrackPlan.Proofs.Graph.Outgoing
import TrackPlan.Proofs.Graph.WayBack
import TrackPlan.Proofs.Mutex.Counting
import TrackPlan.Proofs.Mutex.Sealed
import TrackPlan.Table.Basic

/-!
# Tables agree with themselves

`Table.Consistent` is what a controller relies on when it has the table and not the track: positions
and counts are right, reverse slots point at the way back, groups have the size that they say, and
the loop speaks of sensors and branches.

1. `Table.reverseSlot_edgeOf` reads the entry of an edge as the place of its reverse edge.
2. `Table.mutexSize_edgeOf` counts the entries of a group.
3. `consistent_of_compile` puts these together with what is known of nodes, slots and loops.
-/

namespace TrackPlan

/-! ## The loop -/

theorem Graph.isSensor_iff {g : Graph} {i : Nat} :
    g.isSensor i = true ↔ ∃ n, g.node? i = some n ∧ n.kind.tag = .sensor := by
  unfold isSensor
  cases g.node? i <;> simp

theorem Graph.isBranch_iff {g : Graph} {i : Nat} :
    g.isBranch i = true ↔ ∃ n, g.node? i = some n ∧ n.kind.tag = .branch := by
  unfold isBranch
  cases g.node? i <;> simp [Kind.isBranch_iff]

namespace Calibration

variable {g : Graph} {lap : List (Nat × Nat)} {steps : List LoopStep} {l : Loop}

theorem isBranch_of_mem_noteBranch {branches : List LoopBranch} {node : Nat} {curved : Bool}
    (h : ∀ b ∈ branches, g.isBranch b.node = true) (hnode : g.isBranch node = true) :
    ∀ b ∈ noteBranch node curved branches, g.isBranch b.node = true := by
  induction branches with
  | nil => simpa [noteBranch] using hnode
  | cons b rest ih =>
    obtain ⟨hb, hrest⟩ := List.forall_mem_cons.1 h
    unfold noteBranch
    split
    · exact List.forall_mem_cons.2 ⟨hnode, hrest⟩
    · exact List.forall_mem_cons.2 ⟨hb, ih hrest⟩

/-- The branches of a lap are branches. -/
theorem isBranch_of_mem_branchesOf : ∀ b ∈ branchesOf g lap, g.isBranch b.node = true := by
  unfold branchesOf
  refine List.foldlRecOn
    (motive := fun branches : List LoopBranch => ∀ b ∈ branches, g.isBranch b.node = true)
    lap _ (fun _ h => absurd h List.not_mem_nil) fun branches ih p _ => ?_
  obtain ⟨node, edge⟩ := p
  dsimp only
  cases g.edge? edge with
  | none => exact ih
  | some e =>
    dsimp only
    by_cases hnode : g.isBranch node = true
    · rw [if_pos hnode]
      exact isBranch_of_mem_noteBranch ih hnode
    · rw [if_neg hnode]
      exact ih

/-- The sensors of a lap are sensors. -/
theorem isSensor_of_mem_sensorsAround : ∀ s ∈ sensorsAround g lap, g.isSensor s.node = true := by
  intro s hs
  have := List.mem_map_of_mem (f := LoopSensor.node) hs
  unfold sensorsAround at this
  rw [measureLap_nodes] at this
  exact (List.mem_filter.1 this).2

end Calibration

namespace Table

/-- The edges of all nodes. -/
def edges (t : Table) : List TableEdge := t.nodes.flatMap TableNode.edges

/-- What a table says of itself. -/
structure Consistent (t : Table) : Prop where
  nodeCount_eq : t.nodeCount = t.nodes.length
  index_eq : ∀ i (n : TableNode), t.nodes[i]? = some n → n.index = i
  sensorCount_eq : t.sensorCount = t.nodes.countP (·.kind = .sensor)
  /-- Reverses come in pairs. -/
  exists_reverse : ∀ i (n : TableNode), t.nodes[i]? = some n → n.reverse < t.nodeCount ∧
    ∃ m, t.nodes[n.reverse]? = some m ∧ m.reverse = i
  dest_lt : ∀ e ∈ t.edges, e.dest < t.nodeCount
  /-- The edges of a node fill the slots of its kind, in order. -/
  slots_eq : ∀ n ∈ t.nodes, n.edges.map TableEdge.slot = List.range n.kind.edgeCount
  /-- The reverse slot of an edge is that of an edge back, which is the curved way of its node if
  the edge says so. -/
  exists_back : ∀ n ∈ t.nodes, ∀ e ∈ n.edges, ∃ d m f, t.nodes[e.dest]? = some d ∧
    e.reverseSlot / 2 = d.reverse ∧ t.nodes[d.reverse]? = some m ∧ f ∈ m.edges ∧
      f.slot = e.reverseSlot % 2 ∧ (f.slot = 1 ↔ e.reverseKind = .curved) ∧ f.dest = n.reverse
  mutexSize_eq : ∀ e ∈ t.edges, e.mutexSize = t.edges.countP (·.mutexGroup = e.mutexGroup)
  /-- The groups are numbered from zero without a gap. -/
  mutexGroups : ∃ count, ∀ k, k < count ↔ ∃ e ∈ t.edges, e.mutexGroup = k
  /-- The loop tells of sensors and of branches. -/
  loop_kinds : ∀ l, t.loop = some l →
    (∀ s ∈ l.sensors, ∃ n, t.nodes[s.node]? = some n ∧ n.kind = .sensor) ∧
      ∀ b ∈ l.branches, ∃ n, t.nodes[b.node]? = some n ∧ n.kind = .branch

variable {t : Track} {name : String} {i k : Nat} {e : Edge} {n : Node}

theorem getElem?_ofTrack (i : Nat) :
    (ofTrack name t).nodes[i]? = (t.graph.node? i).map (nodeOf t) := by
  unfold ofTrack
  rw [List.getElem?_map, Array.getElem?_toList]
  rfl

/-- The entries of a table are those of the edges, in their order. -/
theorem edges_ofTrack (hg : t.graph.WellFormed) :
    (ofTrack name t).edges = t.graph.edges.toList.map (edgeOf t) := by
  rw [← hg.flatMap_outgoing]
  unfold edges ofTrack
  rw [List.flatMap_map, List.map_flatMap]
  rfl

theorem mem_edges_ofTrack_iff (hg : t.graph.WellFormed) {x : TableEdge} :
    x ∈ (ofTrack name t).edges ↔ ∃ k e, t.graph.edge? k = some e ∧ edgeOf t e = x := by
  rw [edges_ofTrack hg, List.mem_map]
  constructor
  · rintro ⟨e, he, rfl⟩
    obtain ⟨k, hk⟩ := List.getElem?_of_mem he
    rw [Array.getElem?_toList] at hk
    exact ⟨k, e, hk, rfl⟩
  · rintro ⟨k, e, he, rfl⟩
    exact ⟨e, List.mem_of_getElem? (Array.getElem?_toList.trans he), rfl⟩

/-! ## Reverse slots -/

/-- The reverse slot of an edge is the place of its reverse edge. -/
theorem reverseSlot_edgeOf {r : Nat} {f : Edge} (hr : t.graph.reverseEdge? e.id = some r)
    (hf : t.graph.edge? r = some f) : (edgeOf t e).reverseSlot = 2 * f.src + f.slot := by
  unfold edgeOf
  dsimp only
  rw [hr, Option.bind_some, hf]
  rfl

/-- Without a reverse edge, the reverse slot is the place of the edge itself. -/
theorem reverseSlot_lt (hg : t.graph.WellFormed) (he : t.graph.edge? k = some e) :
    (edgeOf t e).reverseSlot < t.graph.edgeSlotCount := by
  unfold edgeOf
  dsimp only
  cases hr : (t.graph.reverseEdge? e.id).bind t.graph.edge? with
  | none => exact hg.slotIndex_lt he
  | some r =>
    obtain ⟨j, -, hj⟩ := Option.bind_eq_some_iff.1 hr
    exact hg.slotIndex_lt hj

theorem slot_eq_one_iff {kind : ReverseKind} : kind.slot = 1 ↔ kind = .curved := by
  cases kind <;> decide

theorem slot_lt_two (kind : ReverseKind) : kind.slot < 2 := by
  cases kind <;> decide

/-! ## Groups -/

variable {decls : List MutexDecl} {firsts free : List Nat}

theorem mutexGroup_edgeOf (h : t.mutexes.groupOf? e.id = some k) :
    (edgeOf t e).mutexGroup = k := by
  unfold edgeOf
  dsimp only
  rw [h, Option.getD_some]

/-- The size of a group counts the entries that have it. -/
theorem mutexSize_edgeOf (hg : t.graph.WellFormed)
    (hc : t.graph.Components decls t.mutexes firsts free) (h : t.graph.edge? k = some e) :
    (edgeOf t e).mutexSize =
      (ofTrack name t).edges.countP (·.mutexGroup = (edgeOf t e).mutexGroup) := by
  have hgroupOf : ∀ j < t.graph.edgeCount, ∃ k, t.mutexes.groupOf? j = some k := fun j =>
    hc.exists_groupOf?
  have hid := hg.edge_id h
  obtain ⟨k, hk⟩ := hgroupOf e.id (hid ▸ (Array.getElem?_eq_some_iff.1 h).1)
  rw [mutexGroup_edgeOf hk, edges_ofTrack hg, List.countP_map]
  calc (edgeOf t e).mutexSize
      = (List.range t.graph.edgeCount).countP fun j => t.mutexes.groupOf? j = some k :=
        hc.groupSize_eq hg hk
    _ = t.graph.edges.toList.countP fun f => t.mutexes.groupOf? f.id = some k := by
        rw [← hg.map_id_edges, List.countP_map]
        rfl
    _ = t.graph.edges.toList.countP ((fun f => f.mutexGroup = k) ∘ edgeOf t) := by
        apply List.countP_congr
        intro f hf
        obtain ⟨j, hj⟩ := List.getElem?_of_mem hf
        rw [Array.getElem?_toList] at hj
        obtain ⟨i, hi⟩ := hgroupOf f.id (hg.edge_id hj ▸ (Array.getElem?_eq_some_iff.1 hj).1)
        rw [Function.comp_apply, decide_eq_true_iff, decide_eq_true_iff, mutexGroup_edgeOf hi, hi,
          Option.some.injEq]

/-- The groups of the entries are those of the table of groups. -/
theorem exists_mutexGroup_iff (hg : t.graph.WellFormed)
    (hc : t.graph.Components decls t.mutexes firsts free) :
    (∃ x ∈ (ofTrack name t).edges, x.mutexGroup = k) ↔ k < t.mutexes.groups.size := by
  simp only [← hc.exists_groupOf?_eq, mem_edges_ofTrack_iff hg]
  constructor
  · rintro ⟨x, ⟨j, e, he, rfl⟩, rfl⟩
    obtain ⟨i, hi⟩ := hc.exists_groupOf? (hg.edge_id he ▸ (Array.getElem?_eq_some_iff.1 he).1)
    exact ⟨e.id, by rw [mutexGroup_edgeOf hi, hi]⟩
  · rintro ⟨j, hj⟩
    obtain ⟨e, he⟩ : ∃ e, t.graph.edge? j = some e :=
      ⟨_, Array.getElem?_eq_getElem (hc.lt_of_groupOf? hg hj)⟩
    exact ⟨_, ⟨j, e, he, rfl⟩, mutexGroup_edgeOf ((hg.edge_id he).symm ▸ hj)⟩

/-! ## The whole table -/

/-- The row of a node. -/
theorem exists_row {kind : Tag} (h : ∃ n, t.graph.node? i = some n ∧ n.kind.tag = kind) :
    ∃ x, (ofTrack name t).nodes[i]? = some x ∧ x.kind = kind := by
  obtain ⟨n, hn, rfl⟩ := h
  exact ⟨nodeOf t n, by rw [getElem?_ofTrack, hn, Option.map_some], rfl⟩

/-- The way back of an edge, in the table. -/
theorem exists_back_ofTrack (hg : t.graph.WellFormed) (hr : t.graph.Reversible)
    (hw : t.graph.WaysBack) (hn : t.graph.node? i = some n) (hmem : e ∈ t.graph.outgoing i) :
    ∃ d m f, (ofTrack name t).nodes[(edgeOf t e).dest]? = some d ∧
      (edgeOf t e).reverseSlot / 2 = d.reverse ∧
        (ofTrack name t).nodes[d.reverse]? = some m ∧ f ∈ m.edges ∧
          f.slot = (edgeOf t e).reverseSlot % 2 ∧
            (f.slot = 1 ↔ (edgeOf t e).reverseKind = .curved) ∧ f.dest = n.reverse := by
  obtain ⟨he, rfl⟩ := hg.mem_outgoing_iff.1 hmem
  obtain ⟨r, f, hback, hf, hsrc, hdest⟩ := hg.exists_reverseEdge? hr he
  obtain ⟨d, hd, hd'⟩ := Graph.reverse?_eq_some_iff.1 hsrc
  obtain ⟨n', hn', hn''⟩ := Graph.reverse?_eq_some_iff.1 hdest
  obtain ⟨m, hm, -⟩ := hg.exists_src hf
  rw [hn, Option.some.injEq] at hn'
  subst hn'
  have hslot := hg.slot_of_reverseEdge? hw he hback hf
  have hlt : f.slot < 2 := hslot ▸ slot_lt_two _
  refine ⟨nodeOf t d, nodeOf t m, edgeOf t f, ?_, ?_, ?_, ?_, ?_, ?_, hn''.symm⟩
  · show (ofTrack name t).nodes[e.dest]? = _
    rw [getElem?_ofTrack, hd, Option.map_some]
  · rw [reverseSlot_edgeOf hback hf]
    show (2 * f.src + f.slot) / 2 = d.reverse
    omega
  · show (ofTrack name t).nodes[d.reverse]? = _
    rw [hd', getElem?_ofTrack, hm, Option.map_some]
  · show edgeOf t f ∈ (t.graph.outgoing m.id).map (edgeOf t)
    rw [hg.node_id hm]
    exact List.mem_map_of_mem (hg.mem_outgoing_iff.2 ⟨by rw [hg.edge_id hf, hf], rfl⟩)
  · rw [reverseSlot_edgeOf hback hf]
    show f.slot = (2 * f.src + f.slot) % 2
    omega
  · show f.slot = 1 ↔ e.reverseKind = .curved
    rw [hslot, slot_eq_one_iff]

end Table

/-- **Consistent tables.** The table of a compiled track is consistent. -/
theorem consistent_of_compile {text : String} {o : Options} {t : Track}
    (h : (compile text o).result = .ok t) (name : String) :
    (Table.ofTrack name t).Consistent := by
  obtain ⟨records, r, hs⟩ := exists_stages_of_compile h
  have hg := hs.wellFormed
  have hw := Graph.waysBack_of_link hs.link
  obtain ⟨firsts, free, hc⟩ := hg.components_of_build hs.nodeCount_le hs.build
  have hlength : (Table.ofTrack name t).nodes.length = t.graph.nodeCount := by
    simp [Table.ofTrack, Graph.nodeCount]
  exact {
    nodeCount_eq := hlength.symm
    index_eq := by
      intro i x hx
      rw [Table.getElem?_ofTrack, Option.map_eq_some_iff] at hx
      obtain ⟨n, hn, rfl⟩ := hx
      exact hg.node_id hn
    sensorCount_eq := by
      show t.graph.sensorCount = (t.graph.nodes.toList.map (Table.nodeOf t)).countP _
      rw [hg.sensorCount_eq, List.countP_map, ← Array.countP_toList]
      rfl
    exists_reverse := by
      intro i x hx
      rw [Table.getElem?_ofTrack, Option.map_eq_some_iff] at hx
      obtain ⟨n, hn, rfl⟩ := hx
      obtain ⟨m, hm, hback, -⟩ := hs.mirrored i n hn
      refine ⟨hg.reverse_lt hn, Table.nodeOf t m, ?_, hback⟩
      show (Table.ofTrack name t).nodes[n.reverse]? = _
      rw [Table.getElem?_ofTrack, hm, Option.map_some]
    dest_lt := by
      intro x hx
      obtain ⟨k, e, he, rfl⟩ := (Table.mem_edges_ofTrack_iff hg).1 hx
      exact hg.dest_lt he
    slots_eq := by
      intro x hx
      obtain ⟨i, hi⟩ := List.getElem?_of_mem hx
      rw [Table.getElem?_ofTrack, Option.map_eq_some_iff] at hi
      obtain ⟨n, hn, rfl⟩ := hi
      show ((t.graph.outgoing n.id).map (Table.edgeOf t)).map TableEdge.slot = _
      rw [hg.node_id hn, List.map_map]
      exact hg.map_slot_outgoing hn
    exists_back := by
      intro x hx y hy
      obtain ⟨i, hi⟩ := List.getElem?_of_mem hx
      rw [Table.getElem?_ofTrack, Option.map_eq_some_iff] at hi
      obtain ⟨n, hn, rfl⟩ := hi
      obtain ⟨e, he, rfl⟩ := List.mem_map.1 hy
      exact Table.exists_back_ofTrack hg hs.reversible hw hn (hg.node_id hn ▸ he)
    mutexSize_eq := by
      intro x hx
      obtain ⟨k, e, he, rfl⟩ := (Table.mem_edges_ofTrack_iff hg).1 hx
      exact Table.mutexSize_edgeOf hg hc he
    mutexGroups := ⟨_, fun k => (Table.exists_mutexGroup_iff hg hc).symm⟩
    loop_kinds := by
      intro l hl
      obtain ⟨loop, hloop, rfl⟩ := Option.map_eq_some_iff.1 hl
      have hextract := hs.extract
      rw [hloop] at hextract
      obtain ⟨-, -, -, -, hsensors, hbranches⟩ := Calibration.extract_eq_ok_some_iff.1 hextract
      refine ⟨fun s hs => ?_, fun b hb => ?_⟩
      · exact Table.exists_row
          (Graph.isSensor_iff.1 (Calibration.isSensor_of_mem_sensorsAround s (hsensors ▸ hs)))
      · exact Table.exists_row
          (Graph.isBranch_iff.1 (Calibration.isBranch_of_mem_branchesOf b (hbranches ▸ hb))) }

/-- The siding with its mutex records: both ways of each switch have the same way back. -/
theorem consistent_guardedSiding : ∃ t, (compile guardedSiding {}).result = .ok t ∧
    (Table.ofTrack "siding" t).edges.map TableEdge.reverseSlot = [4, 4, 8, 0, 0, 12, 2, 6] ∧
      (Table.ofTrack "siding" t).Consistent := by
  have h : (compile guardedSiding {}).result.toOption.map
      (fun t => (Table.ofTrack "siding" t).edges.map TableEdge.reverseSlot) =
        some [4, 4, 8, 0, 0, 12, 2, 6] := by
    decide +kernel
  obtain ⟨t, ht, hslots⟩ := exists_of_toOption_map h
  exact ⟨t, ht, hslots, consistent_of_compile ht "siding"⟩

end TrackPlan
