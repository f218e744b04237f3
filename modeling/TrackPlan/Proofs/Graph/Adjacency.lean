import TrackPlan.Proofs.Graph.WellFormed

/-!
# Neighbouring nodes

One node follows another if an edge leads from the other to it. In a well-formed graph that says
the same as the kinds of the nodes do (`follows_iff`), and as looking up the edge between two nodes
does (`edgeBetween?_isSome_iff`).
-/

namespace TrackPlan

/-- An edge leads from one node to the other. -/
def Graph.Follows (g : Graph) (src dest : Nat) : Prop :=
  ∃ k e, g.edge? k = some e ∧ e.src = src ∧ e.dest = dest

namespace Graph.WellFormed

variable {g : Graph} {a b i k slot : Nat} {n : Node} {e : Edge}

theorem exists_node (h : i < g.nodeCount) : ∃ n, g.node? i = some n :=
  ⟨g.nodes[i], Array.getElem?_eq_getElem h⟩

/-- An edge stands in its slot of its source, which has its destination as a successor there. -/
theorem exists_src (hg : g.WellFormed) (he : g.edge? k = some e) : ∃ n,
    g.node? e.src = some n ∧ n.edges[e.slot]? = some k ∧
      n.kind.successors[e.slot]? = some e.dest := by
  obtain ⟨n, hn⟩ := exists_node (hg.src_lt he)
  have hslot := (hg.slot_iff hn).2 ⟨e, he, rfl, rfl⟩
  exact ⟨n, hn, hslot, hg.slot_dest hn hslot he⟩

/-- A node has two slots at most. -/
theorem slot_lt (hg : g.WellFormed) (he : g.edge? k = some e) : e.slot < 2 := by
  obtain ⟨m, -, -, hdest⟩ := hg.exists_src he
  have hslot := (List.getElem?_eq_some_iff.1 hdest).1
  rw [Kind.length_successors] at hslot
  refine Nat.lt_of_lt_of_le hslot ?_
  cases m.kind.tag <;> decide

/-- Every successor has its edge. -/
theorem exists_edge (hg : g.WellFormed) (hn : g.node? i = some n)
    (hs : n.kind.successors[slot]? = some b) : ∃ k e, n.edges[slot]? = some k ∧
      g.edge? k = some e ∧ e.src = i ∧ e.slot = slot ∧ e.dest = b := by
  obtain ⟨k, hk⟩ := (hg.slot_used hn).2 ⟨b, hs⟩
  obtain ⟨e, he, hsrc, hslot⟩ := (hg.slot_iff hn).1 hk
  have hdest := hg.slot_dest hn hk he
  rw [hs] at hdest
  exact ⟨k, e, hk, he, hsrc, hslot, (Option.some.inj hdest).symm⟩

/-- A node is followed by the successors of its kind. -/
theorem follows_iff (hg : g.WellFormed) (hn : g.node? a = some n) :
    g.Follows a b ↔ b ∈ n.kind.successors := by
  constructor
  · intro h
    obtain ⟨k, e, he, rfl, rfl⟩ := h
    obtain ⟨m, hm, -, hs⟩ := hg.exists_src he
    rw [hn] at hm
    cases hm
    exact List.mem_of_getElem? hs
  · intro hb
    obtain ⟨slot, hs⟩ := List.getElem?_of_mem hb
    obtain ⟨k, e, -, he, hsrc, -, hdest⟩ := hg.exists_edge hn hs
    exact ⟨k, e, he, hsrc, hdest⟩

theorem Follows.src_lt (hg : g.WellFormed) (h : g.Follows a b) : a < g.nodeCount := by
  obtain ⟨k, e, he, rfl, -⟩ := h
  exact hg.src_lt he

theorem Follows.dest_lt (hg : g.WellFormed) (h : g.Follows a b) : b < g.nodeCount := by
  obtain ⟨k, e, he, -, rfl⟩ := h
  exact hg.dest_lt he

/-! ## The edges that leave a node -/

theorem mem_outgoing_iff (hg : g.WellFormed) :
    e ∈ g.outgoing a ↔ g.edge? e.id = some e ∧ e.src = a := by
  unfold outgoing
  cases hn : g.node? a with
  | none =>
    apply iff_of_false List.not_mem_nil
    rintro ⟨he, rfl⟩
    obtain ⟨n, hn'⟩ := exists_node (hg.src_lt he)
    rw [hn] at hn'
    cases hn'
  | some n =>
    rw [List.mem_filterMap]
    constructor
    · rintro ⟨k, hk, he⟩
      obtain ⟨slot, hslot⟩ := List.getElem?_of_mem hk
      obtain ⟨f, hf, hsrc, -⟩ := (hg.slot_iff hn).1 hslot
      rw [he] at hf
      cases hf
      exact ⟨by rw [hg.edge_id he]; exact he, hsrc⟩
    · rintro ⟨he, rfl⟩
      obtain ⟨m, hm, hslot, -⟩ := hg.exists_src he
      rw [hn] at hm
      cases hm
      exact ⟨e.id, List.mem_of_getElem? hslot, he⟩

/-- The edge between two nodes is an edge between them. -/
theorem edge_of_edgeBetween? (hg : g.WellFormed) (h : g.edgeBetween? a b = some k) :
    ∃ e, g.edge? k = some e ∧ e.src = a ∧ e.dest = b := by
  unfold edgeBetween? at h
  obtain ⟨e, he, rfl⟩ := Option.map_eq_some_iff.1 h
  obtain ⟨hid, hsrc⟩ := (hg.mem_outgoing_iff).1 (List.mem_of_find?_eq_some he)
  exact ⟨e, hid, hsrc, by simpa using List.find?_some he⟩

/-- There is an edge between two nodes if one follows the other. -/
theorem edgeBetween?_isSome_iff (hg : g.WellFormed) :
    (g.edgeBetween? a b).isSome ↔ g.Follows a b := by
  constructor
  · intro h
    obtain ⟨k, hk⟩ := Option.isSome_iff_exists.1 h
    obtain ⟨e, he, hsrc, hdest⟩ := hg.edge_of_edgeBetween? hk
    exact ⟨k, e, he, hsrc, hdest⟩
  · intro hs
    obtain ⟨k, e, he, hsrc, rfl⟩ := hs
    unfold edgeBetween?
    rw [Option.isSome_map, List.find?_isSome]
    refine ⟨e, hg.mem_outgoing_iff.2 ⟨?_, hsrc⟩, by simp⟩
    rw [hg.edge_id he]
    exact he

theorem exists_edgeBetween?_iff (hg : g.WellFormed) :
    (∃ k, g.edgeBetween? a b = some k) ↔ g.Follows a b := by
  rw [← hg.edgeBetween?_isSome_iff, Option.isSome_iff_exists]

theorem edgeBetween?_eq_none_iff (hg : g.WellFormed) :
    g.edgeBetween? a b = none ↔ ¬ g.Follows a b := by
  rw [← hg.edgeBetween?_isSome_iff, Option.not_isSome_iff_eq_none]

end Graph.WellFormed

end TrackPlan
