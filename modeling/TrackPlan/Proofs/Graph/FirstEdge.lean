import TrackPlan.Proofs.Graph.Reversal

/-!
# The first edge between two nodes

A look-up by two nodes finds the edge in the lowest slot. So it misses one kind of edge, the curved
way of a branch whose straight way leads to the same node (`Shadowed`), and finds every other edge
by its nodes (`WellFormed.edgeBetween?_eq_some_iff`).
-/

namespace TrackPlan.Graph

variable {g : Graph} {a b j k : Nat} {e f : Edge}

/-- The edge is the curved way of a branch, and the straight way leads to the same node. -/
def Shadowed (g : Graph) (e : Edge) : Prop :=
  e.slot = 1 ∧ ∃ n number, g.node? e.src = some n ∧ n.kind = .branch number e.dest e.dest

/-- The edges that leave a node are listed by slot. -/
theorem WellFormed.outgoing_ascending (hg : g.WellFormed) :
    (g.outgoing a).Pairwise fun e f => e.slot < f.slot := by
  unfold outgoing
  cases hn : g.node? a with
  | none => exact List.Pairwise.nil
  | some n =>
    dsimp only
    rw [List.pairwise_filterMap, List.pairwise_iff_getElem]
    intro i j hi hj hij e he f hf
    obtain ⟨e', he', -, hslot⟩ := (hg.slot_iff hn).1 (List.getElem?_eq_getElem hi)
    obtain ⟨f', hf', -, hslot'⟩ := (hg.slot_iff hn).1 (List.getElem?_eq_getElem hj)
    rw [he, Option.some.injEq] at he'
    rw [hf, Option.some.injEq] at hf'
    subst he' hf'
    omega

/-- A look-up finds the edge in the lowest slot. -/
theorem WellFormed.slot_le_of_edgeBetween? (hg : g.WellFormed) (h : g.edgeBetween? a b = some j)
    (he : g.edge? j = some e) (hf : g.edge? k = some f) (hsrc : f.src = a) (hdest : f.dest = b) :
    e.slot ≤ f.slot := by
  unfold edgeBetween? at h
  obtain ⟨e', hfind, rfl⟩ := Option.map_eq_some_iff.1 h
  have he' := (hg.mem_outgoing_iff.1 (List.mem_of_find?_eq_some hfind)).1
  rw [he, Option.some.injEq] at he'
  subst he'
  have hmem : f ∈ g.outgoing a := hg.mem_outgoing_iff.2 ⟨by rw [hg.edge_id hf, hf], hsrc⟩
  rcases find?_least hg.outgoing_ascending hfind hmem (by simpa using hdest) with rfl | hlt
  · exact Nat.le_refl _
  · exact Nat.le_of_lt hlt

/-- The source and the slot say which edge it is. -/
theorem WellFormed.edge_inj (hg : g.WellFormed) (he : g.edge? j = some e) (hf : g.edge? k = some f)
    (hsrc : e.src = f.src) (hslot : e.slot = f.slot) : j = k := by
  obtain ⟨n, hn⟩ := exists_node (hg.src_lt he)
  have hj := (hg.slot_iff hn).2 ⟨e, he, rfl, rfl⟩
  have hk := (hg.slot_iff hn).2 ⟨f, hf, hsrc.symm, rfl⟩
  rw [hslot, hk, Option.some.injEq] at hj
  exact hj.symm

theorem WellFormed.slotIndex_lt (hg : g.WellFormed) (he : g.edge? k = some e) :
    e.slotIndex < g.edgeSlotCount := by
  have hsrc := hg.src_lt he
  have hslot := hg.slot_lt he
  unfold Edge.slotIndex edgeSlotCount
  omega

/-- The position among the slots of all nodes says which edge it is, too. -/
theorem WellFormed.slotIndex_inj (hg : g.WellFormed) (he : g.edge? j = some e)
    (hf : g.edge? k = some f) (h : e.slotIndex = f.slotIndex) : j = k := by
  have hslot := hg.slot_lt he
  have hslot' := hg.slot_lt hf
  unfold Edge.slotIndex at h
  exact hg.edge_inj he hf (by omega) (by omega)

/-- An edge that a look-up by its nodes misses is shadowed. -/
theorem WellFormed.shadowed_of_ne (hg : g.WellFormed) (he : g.edge? k = some e)
    (hj : g.edgeBetween? e.src e.dest = some j) (hne : j ≠ k) : g.Shadowed e := by
  obtain ⟨f, hf, hsrc, hdest⟩ := hg.edge_of_edgeBetween? hj
  have hlt : f.slot < e.slot := by
    refine Nat.lt_of_le_of_ne (hg.slot_le_of_edgeBetween? hj hf he rfl rfl) fun hslot => ?_
    exact hne (hg.edge_inj hf he hsrc hslot)
  obtain ⟨n, hn, -, hs⟩ := hg.exists_src he
  obtain ⟨m, hm, -, ht⟩ := hg.exists_src hf
  rw [hsrc, hn, Option.some.injEq] at hm
  subst hm
  obtain ⟨hslot, number, hkind⟩ := Kind.eq_branch_of_slot_lt ht hs hlt
  rw [hdest] at hkind
  exact ⟨hslot, n, number, hn, hkind⟩

/-- A look-up by the nodes of an edge finds the edge unless it is shadowed. -/
theorem WellFormed.edgeBetween?_eq_some_iff (hg : g.WellFormed) (he : g.edge? k = some e) :
    g.edgeBetween? e.src e.dest = some k ↔ ¬ g.Shadowed e := by
  constructor
  · rintro hk ⟨hslot, n, number, hn, hkind⟩
    -- the straight way is in a lower slot
    have hs : n.kind.successors[0]? = some e.dest := by rw [hkind]; rfl
    obtain ⟨i, f, -, hf, hsrc, hslot', hdest⟩ := hg.exists_edge hn hs
    have := hg.slot_le_of_edgeBetween? hk he hf hsrc hdest
    omega
  · intro hns
    obtain ⟨j, hj⟩ := hg.exists_edgeBetween?_iff.2 ⟨k, e, he, rfl, rfl⟩
    by_cases hjk : j = k
    · rw [hj, hjk]
    · exact absurd (hg.shadowed_of_ne he hj hjk) hns

/-- No edge is shadowed if both ways of every branch part. -/
theorem WellFormed.forked_iff (hg : g.WellFormed) :
    g.Forked ↔ ∀ k e, g.edge? k = some e → ¬ g.Shadowed e := by
  constructor
  · rintro h k e - ⟨-, n, number, hn, hkind⟩
    exact h e.src n number e.dest e.dest hn hkind rfl
  · rintro h i n number straight _ hn hkind rfl
    have hs : n.kind.successors[1]? = some straight := by rw [hkind]; rfl
    obtain ⟨k, e, -, he, rfl, hslot, rfl⟩ := hg.exists_edge hn hs
    exact h k e he ⟨hslot, n, number, hn, hkind⟩

/-- Where both ways of every branch part, a look-up by the nodes of an edge finds the edge. -/
theorem Forked.edgeBetween?_eq (h : g.Forked) (hg : g.WellFormed) (he : g.edge? k = some e) :
    g.edgeBetween? e.src e.dest = some k :=
  (hg.edgeBetween?_eq_some_iff he).2 (hg.forked_iff.1 h k e he)

end TrackPlan.Graph
