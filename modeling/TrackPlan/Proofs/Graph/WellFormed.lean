import TrackPlan.Proofs.Graph.Wiring

/-!
# Well-formed graphs

Nodes, names, slots and edges of a graph are made by separate passes, and `Graph.WellFormed` says
how they agree. It holds of every graph that is linked, whatever was declared before.

1. `Wires.wellFormed` derives it from the wiring of a valid registry.
2. `Reachable.link_wellFormed` states it of every registry that calls can reach, those with half of
   a record or with nodes outside the layout included.
-/

namespace TrackPlan

/-- What linking guarantees of a graph. -/
structure Graph.WellFormed (g : Graph) : Prop where
  node_id : ∀ {i n}, g.node? i = some n → n.id = i
  reverse_lt : ∀ {i n}, g.node? i = some n → n.reverse < g.nodeCount
  edge_id : ∀ {k e}, g.edge? k = some e → e.id = k
  src_lt : ∀ {k e}, g.edge? k = some e → e.src < g.nodeCount
  dest_lt : ∀ {k e}, g.edge? k = some e → e.dest < g.nodeCount
  sensorSlots_le : g.sensorSlots ≤ g.nodeCount
  /-- A place of a sensor holds the sensor of that address or a dummy. -/
  sensor_place : ∀ {i n}, g.node? i = some n → i < g.sensorSlots →
    (n.kind.tag = .sensor ∧ n.address.toNat = i) ∨
      (n.kind.tag = .dummy ∧ n.reverse = i ∧ n.edges = [])
  /-- The other places hold neither. -/
  later_place : ∀ {i n}, g.node? i = some n → g.sensorSlots ≤ i →
    n.kind.tag ≠ .sensor ∧ n.kind.tag ≠ .dummy
  sensorCount_eq : g.sensorCount = g.nodes.countP (·.kind.tag == .sensor)
  /-- A name finds the one node, dummies apart, that has it. -/
  nodeId?_eq_some_iff : ∀ {s i}, g.nodeId? s = some i ↔
    ∃ n, g.node? i = some n ∧ n.kind.tag ≠ .dummy ∧ n.name = s
  /-- Edges are listed by source and then by slot. -/
  edges_ascending : ∀ {j k e f}, g.edge? j = some e → g.edge? k = some f → j < k →
    e.src < f.src ∨ e.src = f.src ∧ e.slot < f.slot
  /-- The edge in a slot of a node is the edge with that source and that slot. -/
  slot_iff : ∀ {i n} {slot k : Nat}, g.node? i = some n →
    (n.edges[slot]? = some k ↔ ∃ e, g.edge? k = some e ∧ e.src = i ∧ e.slot = slot)
  /-- A slot is used if the kind of the node has a successor there. -/
  slot_used : ∀ {i n} {slot : Nat}, g.node? i = some n →
    ((∃ k, n.edges[slot]? = some k) ↔ ∃ dest, n.kind.successors[slot]? = some dest)
  /-- An edge leads to the successor in its slot. -/
  slot_dest : ∀ {i n e} {slot k : Nat}, g.node? i = some n → n.edges[slot]? = some k →
    g.edge? k = some e → n.kind.successors[slot]? = some e.dest

namespace Registry

variable {r : Registry} {g : Graph} {i k slot : Nat} {n : Node} {e : Edge}

theorem Wires.lookup_places (hw : r.Wires g) (hv : r.Valid) {s : String} :
    g.places.lookup s = some i ↔ ∃ d, r.placed[i]? = some (some d) ∧ d.name = s := by
  rw [hw.places_eq]
  exact hv.lookup_places

theorem Wires.lt_of_lookup (hw : r.Wires g) (hv : r.Valid) {s : String}
    (h : g.places.lookup s = some i) : i < g.nodeCount := by
  obtain ⟨d, hd, -⟩ := (hw.lookup_places hv).1 h
  rw [hw.nodeCount_eq, ← length_placed]
  exact (List.getElem?_eq_some_iff.1 hd).1

theorem Wires.node_id (hw : r.Wires g) (h : g.node? i = some n) : n.id = i := by
  obtain ⟨d?, -, hr⟩ := hw.resolved i n h
  cases d? <;> exact hr.1

theorem Wires.reverse_lt (hw : r.Wires g) (hv : r.Valid) (h : g.node? i = some n) :
    n.reverse < g.nodeCount := by
  obtain ⟨d?, -, hr⟩ := hw.resolved i n h
  cases d? with
  | none => rw [hr.2.2.1]; exact (Array.getElem?_eq_some_iff.1 h).1
  | some d => exact hw.lt_of_lookup hv hr.2.2.1

/-- The successors of a node are nodes. -/
theorem Wires.successor_lt (hw : r.Wires g) (hv : r.Valid) (h : g.node? i = some n) {dest : Nat}
    (hd : dest ∈ n.kind.successors) : dest < g.nodeCount := by
  obtain ⟨d?, -, hr⟩ := hw.resolved i n h
  cases d? with
  | none => simp [hr.2.2.2, Kind.successors] at hd
  | some d =>
    obtain ⟨s, -, hs⟩ := hr.2.2.2.exists_left hd
    exact hw.lt_of_lookup hv hs

/-- An edge, its source, its slot and its number. -/
theorem Wires.edge_spec (hw : r.Wires g) (h : g.edge? k = some e) :
    ∃ n, g.node? e.src = some n ∧ n.kind.successors[e.slot]? = some e.dest ∧
      k = edgeStart g.nodes.toList e.src + e.slot :=
  (hw.edge_iff k e.src e.slot e.dest).1 ⟨e, h, rfl, rfl, rfl⟩

theorem Wires.edges_eq (hw : r.Wires g) (h : g.node? i = some n) :
    n.edges = List.range' (edgeStart g.nodes.toList i) n.kind.successors.length :=
  hw.numbered i n (by simpa [Graph.node?] using h)

/-- The edge in a slot of a node. -/
theorem Wires.slot_eq_some_iff (hw : r.Wires g) (h : g.node? i = some n) :
    n.edges[slot]? = some k ↔
      slot < n.kind.successors.length ∧ k = edgeStart g.nodes.toList i + slot := by
  rw [hw.edges_eq h, List.getElem?_eq_some_iff]
  simp [List.getElem_range', eq_comm]

theorem Wires.slot_iff (hw : r.Wires g) (h : g.node? i = some n) :
    n.edges[slot]? = some k ↔ ∃ e, g.edge? k = some e ∧ e.src = i ∧ e.slot = slot := by
  rw [hw.slot_eq_some_iff h]
  constructor
  · rintro ⟨hlt, hk⟩
    obtain ⟨e, he, hsrc, hslot, -⟩ := (hw.edge_iff k i slot _).2
      ⟨n, h, List.getElem?_eq_getElem hlt, hk⟩
    exact ⟨e, he, hsrc, hslot⟩
  · intro hx
    obtain ⟨e, he, rfl, rfl⟩ := hx
    obtain ⟨m, hm, hs, hk⟩ := hw.edge_spec he
    rw [h] at hm
    cases hm
    exact ⟨(List.getElem?_eq_some_iff.1 hs).1, hk⟩

/-- The place of a node among sensors and dummies. -/
theorem Wires.sensor_place (hw : r.Wires g) (hv : r.Valid) (h : g.node? i = some n)
    (hi : i < g.sensorSlots) : (n.kind.tag = .sensor ∧ n.address.toNat = i) ∨
      (n.kind.tag = .dummy ∧ n.reverse = i ∧ n.edges = []) := by
  obtain ⟨d?, hd, hr⟩ := hw.resolved i n h
  cases d? with
  | none =>
    obtain ⟨-, -, hrev, hk⟩ := hr
    refine Or.inr ⟨by rw [hk]; rfl, hrev, ?_⟩
    rw [hw.edges_eq h, hk]
    rfl
  | some d =>
    obtain ⟨a, had, hap⟩ := hv.address_of_placed hd (hw.sensorSlots_eq ▸ hi)
    have haddr := hr.2.2.2.address?_eq.trans had
    refine Or.inl ⟨?_, by rw [Node.address, haddr]; exact hap⟩
    revert haddr
    cases n.kind <;> simp [Kind.address?, Kind.tag]

theorem Wires.later_place (hw : r.Wires g) (hv : r.Valid) (h : g.node? i = some n)
    (hi : g.sensorSlots ≤ i) : n.kind.tag ≠ .sensor ∧ n.kind.tag ≠ .dummy := by
  obtain ⟨d?, hd, hr⟩ := hw.resolved i n h
  rw [hw.sensorSlots_eq] at hi
  cases d? with
  | none =>
    have := (hv.placed_eq_none hd).2
    omega
  | some d =>
    have ht := hv.tag_of_placed hd hi
    rw [← hr.2.2.2.tag_eq] at ht
    constructor <;> intro h <;> simp [h] at ht

/-- A node is a dummy if no declaration has its place. -/
theorem Wires.tag_eq_dummy_iff (hw : r.Wires g) (hv : r.Valid) (h : g.node? i = some n) :
    n.kind.tag = .dummy ↔ r.placed[i]? = some none := by
  obtain ⟨d?, hd, hr⟩ := hw.resolved i n h
  rw [hd]
  cases d? with
  | none => simp [hr.2.2.2, Kind.tag]
  | some d =>
    simp only [Option.some.injEq, reduceCtorEq, iff_false]
    intro hdummy
    rcases Nat.lt_or_ge i g.sensorSlots with hi | hi
    · obtain ⟨a, had, -⟩ := hv.address_of_placed hd (hw.sensorSlots_eq ▸ hi)
      rw [← hr.2.2.2.address?_eq] at had
      revert hdummy had
      cases n.kind <;> simp [Kind.address?, Kind.tag]
    · exact (hw.later_place hv h hi).2 hdummy

theorem Wires.nodeId?_eq_some_iff (hw : r.Wires g) (hv : r.Valid) {s : String} :
    g.nodeId? s = some i ↔ ∃ n, g.node? i = some n ∧ n.kind.tag ≠ .dummy ∧ n.name = s := by
  refine (hw.lookup_places hv).trans ⟨?_, ?_⟩
  · rintro ⟨d, hd, rfl⟩
    have hi : i < g.nodeCount := by
      rw [hw.nodeCount_eq, ← length_placed]
      exact (List.getElem?_eq_some_iff.1 hd).1
    have hn : g.node? i = some g.nodes[i] := Array.getElem?_eq_getElem hi
    refine ⟨_, hn, fun h => ?_, ?_⟩
    · rw [hw.tag_eq_dummy_iff hv hn, hd] at h
      cases h
    · obtain ⟨d?, hd', hr⟩ := hw.resolved i _ hn
      rw [hd] at hd'
      cases hd'
      exact hr.2.1
  · intro hs
    obtain ⟨n, hn, ht, rfl⟩ := hs
    rw [ne_eq, hw.tag_eq_dummy_iff hv hn] at ht
    obtain ⟨d?, hd, hr⟩ := hw.resolved i n hn
    cases d? with
    | none => exact absurd hd ht
    | some d => exact ⟨d, hd, hr.2.1.symm⟩

/-- The graph has as many sensors as the registry. -/
theorem Wires.countP_sensors (hw : r.Wires g) (hv : r.Valid) :
    g.sensorCount = g.nodes.countP (·.kind.tag == .sensor) := by
  have hmap : g.nodes.toList.map (·.kind.tag == .sensor) = r.placed.map holdsSensor := by
    refine List.ext_getElem? fun i => ?_
    rw [List.getElem?_map, List.getElem?_map, Array.getElem?_toList]
    show (g.node? i).map _ = _
    cases h : g.node? i with
    | none =>
      have hi : r.placed.length ≤ i := by
        rw [length_placed, ← hw.nodeCount_eq]
        exact Array.getElem?_eq_none_iff.1 h
      rw [List.getElem?_eq_none hi]
      rfl
    | some n =>
      obtain ⟨d?, hd, hr⟩ := hw.resolved i n h
      rw [hd]
      cases d? with
      | none => simp [holdsSensor, hr.2.2.2, Kind.tag]
      | some d => simp [holdsSensor, hr.2.2.2.tag_eq]
  have hcount := congrArg (List.countP id) hmap
  rw [List.countP_map, List.countP_map] at hcount
  rw [hw.sensorCount_eq, ← hv.countP_placed, ← Array.countP_toList]
  exact hcount.symm

/-- The graph of a valid registry is well formed. -/
theorem Wires.wellFormed (hw : r.Wires g) (hv : r.Valid) : g.WellFormed where
  node_id := hw.node_id
  reverse_lt := hw.reverse_lt hv
  edge_id := hw.edge_id _ _
  src_lt := by
    intro k e he
    obtain ⟨n, hn, -⟩ := hw.edge_spec he
    exact (Array.getElem?_eq_some_iff.1 hn).1
  dest_lt := by
    intro k e he
    obtain ⟨n, hn, hs, -⟩ := hw.edge_spec he
    exact hw.successor_lt hv hn (List.mem_of_getElem? hs)
  sensorSlots_le := by
    rw [hw.sensorSlots_eq, hw.nodeCount_eq]
    unfold slotCount
    omega
  sensor_place := hw.sensor_place hv
  later_place := hw.later_place hv
  sensorCount_eq := hw.countP_sensors hv
  nodeId?_eq_some_iff := hw.nodeId?_eq_some_iff hv
  edges_ascending := by
    intro j k e f he hf hjk
    obtain ⟨n, hn, hs, rfl⟩ := hw.edge_spec he
    obtain ⟨m, hm, ht, rfl⟩ := hw.edge_spec hf
    have hn : g.nodes.toList[e.src]? = some n := by simpa [Graph.node?] using hn
    have hm : g.nodes.toList[f.src]? = some m := by simpa [Graph.node?] using hm
    rcases Nat.lt_trichotomy e.src f.src with hlt | heq | hlt
    · exact Or.inl hlt
    · rw [heq] at hjk
      exact Or.inr ⟨heq, by omega⟩
    · have := edgeStart_add_lt hm (List.getElem?_eq_some_iff.1 ht).1 hlt
      omega
  slot_iff := hw.slot_iff
  slot_used := by
    intro i n slot hn
    simp only [hw.slot_eq_some_iff hn, exists_and_left, exists_eq, and_true]
    constructor
    · intro h
      exact ⟨_, List.getElem?_eq_getElem h⟩
    · rintro ⟨dest, h⟩
      exact (List.getElem?_eq_some_iff.1 h).1
  slot_dest := by
    intro i n e slot k hn hk he
    obtain ⟨f, hf, rfl, rfl⟩ := (hw.slot_iff hn).1 hk
    rw [he] at hf
    cases hf
    obtain ⟨m, hm, hs, -⟩ := hw.edge_spec he
    rw [hn] at hm
    cases hm
    exact hs

/-- **Linked graphs are well formed**, whatever calls made the registry, failed ones included. -/
theorem Reachable.link_wellFormed (hr : r.Reachable) {o : Options}
    (h : (r.link o).result = .ok g) : g.WellFormed :=
  (wires_of_link h).wellFormed hr.valid

/-- Two sensors with a free address between them, a branch whose merge has a taken name, and an
exit that was declared by itself. -/
def leftovers : Registry :=
  { decls := [⟨"A", "B", .sensor 0 "B", 1⟩, ⟨"B", "A", .sensor 2 "A", 1⟩,
      ⟨"X", "A", .branch 1 "B" "B", 2⟩, ⟨"Y", "Z", .exit, 3⟩]
    names := [("A", 0), ("B", 1), ("X", 2), ("Y", 3)]
    sensors := [(0, 0), (2, 1)] }

theorem reachable_leftovers : leftovers.Reachable :=
  .declare (d := ⟨"Y", "Z", .exit, 3⟩)
    (.add (.add .empty ⟨1, .sensors ⟨"A", 0, "B"⟩ ⟨"B", 2, "A"⟩⟩)
      ⟨2, .switch "X" 1 "B" "B" "A" "B"⟩) rfl

/-- Neither leftover has a node: the graph holds two sensors and a dummy. -/
def leftoversGraph : Graph :=
  { nodes := #[⟨0, "A", 2, .sensor 0 2, [0]⟩, ⟨1, "", 1, .dummy, []⟩, ⟨2, "B", 0, .sensor 2 0, [1]⟩]
    edges := #[⟨0, 0, 2, 0, .ahead, 0⟩, ⟨1, 2, 0, 0, .ahead, 0⟩]
    places := [("A", 0), ("B", 2)]
    sensorCount := 2
    sensorSlots := 3 }

theorem link_leftovers : (leftovers.link {}).result = .ok leftoversGraph := by decide +kernel

theorem link_leftovers_wellFormed : (leftovers.link {}).result = .ok leftoversGraph ∧
    leftoversGraph.WellFormed :=
  ⟨link_leftovers, reachable_leftovers.link_wellFormed link_leftovers⟩

end Registry

end TrackPlan
