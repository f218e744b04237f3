import TrackPlan.Proofs.Graph.ReverseEdge

/-!
# The way back

When an edge is laid, the kinds of the nodes tell which way of the node at its far end leads back
along it. That is the slot of its reverse edge, which is looked up in the finished graph
(`slot_of_reverseEdge?`), also where both ways of a branch lead to one node.
-/

namespace TrackPlan

namespace Graph

variable {g : Graph} {k r : Nat} {e f : Edge} {n m d : Node}

/-- Every edge says which way of the node at its far end leads back along it. -/
def WaysBack (g : Graph) : Prop :=
  ∀ k e, g.edge? k = some e → e.reverseKind = reverseKind g.nodes e.src e.dest

/-! ## Ways back are laid with the edges -/

theorem WaysBack.setDistance (h : g.WaysBack) (edge : Nat) (mm : UInt32) :
    (g.setDistance edge mm).WaysBack := by
  intro k e he
  rw [edge?_setDistance] at he
  obtain ⟨f, hf, rfl⟩ := Option.map_eq_some_iff.1 he
  have := h k f hf
  split <;> exact this

theorem WaysBack.measure (h : g.WaysBack) (entries : List ((Nat × Nat) × DistanceEntry)) :
    (g.measure entries).1.WaysBack := by
  induction entries generalizing g with
  | nil => exact h
  | cons entry rest ih =>
    obtain ⟨⟨src, dest⟩, entry⟩ := entry
    unfold Graph.measure
    cases g.edgeBetween? src dest with
    | none => exact h
    | some edge => exact ih (h.setDistance edge entry.millimeters)

theorem waysBack_of_wire {reg : Registry} (h : reg.wire = .ok g) : g.WaysBack := by
  obtain ⟨nodes, -, rfl⟩ := Registry.wire_eq_ok.1 h
  intro k e he
  obtain ⟨src, slot, dest, -, rfl⟩ := layEdges_eq_some_iff.1 he
  rfl

theorem waysBack_of_link {reg : Registry} {o : Options} (h : (reg.link o).result = .ok g) :
    g.WaysBack := by
  obtain ⟨-, g₀, hg₀, t, -, -, rfl⟩ := Registry.link_eq_ok.1 h
  exact (waysBack_of_wire hg₀).measure _

/-! ## The slot of the reverse edge -/

/-- The way back is found at the reverse of the destination. -/
theorem reverseKind_eq (hsrc : g.node? e.src = some n) (hdest : g.node? e.dest = some d)
    (hm : g.node? d.reverse = some m) : reverseKind g.nodes e.src e.dest =
      m.kind.straight?.elim .ahead fun straight =>
        if n.reverse = straight then .straight else .curved := by
  unfold node? at hsrc hdest hm
  unfold reverseKind
  simp only [hsrc, hdest, hm, Option.map_some, Option.bind_eq_bind, Option.bind_some,
    Option.some.injEq]
  cases m.kind.straight? <;> rfl

/-- A node without a straight way has no slot but the first. -/
theorem slot_eq_zero_of_straight?_eq_none (h : m.kind.straight? = none) {slot dest : Nat}
    (hs : m.kind.successors[slot]? = some dest) : slot = 0 := by
  by_contra hne
  obtain ⟨a, ha⟩ : ∃ a, m.kind.successors[0]? = some a :=
    ⟨_, List.getElem?_eq_getElem (Nat.zero_lt_of_lt (List.getElem?_eq_some_iff.1 hs).1)⟩
  obtain ⟨-, number, hkind⟩ := Kind.eq_branch_of_slot_lt ha hs (Nat.pos_of_ne_zero hne)
  rw [hkind] at h
  cases h

theorem successors_of_straight? {straight : Nat} (h : m.kind.straight? = some straight) :
    ∃ curved, m.kind.successors = [straight, curved] := by
  cases hk : m.kind <;> rw [hk] at h <;> cases h
  exact ⟨_, rfl⟩

/-- The reverse edge leaves its node by the way back that the edge tells. -/
theorem WellFormed.slot_of_reverseEdge? (hg : g.WellFormed) (hw : g.WaysBack)
    (he : g.edge? k = some e) (hk : g.reverseEdge? k = some r) (hf : g.edge? r = some f) :
    f.slot = e.reverseKind.slot := by
  obtain ⟨n, hn⟩ := exists_node (hg.src_lt he)
  obtain ⟨d, hd⟩ := exists_node (hg.dest_lt he)
  obtain ⟨m, hm, -, hslot⟩ := hg.exists_src hf
  rw [reverseEdge?_eq he hn hd] at hk
  obtain ⟨f', hf', hsrc, hdest⟩ := hg.edge_of_edgeBetween? hk
  rw [hf, Option.some.injEq] at hf'
  subst hf'
  rw [hsrc] at hm
  rw [hw k e he, reverseKind_eq hn hd hm]
  cases hs : m.kind.straight? with
  | none => exact slot_eq_zero_of_straight?_eq_none hs hslot
  | some straight =>
    obtain ⟨curved, hsucc⟩ := successors_of_straight? hs
    rw [hsucc, hdest] at hslot
    rw [Option.elim_some]
    by_cases hback : n.reverse = straight
    · -- the straight way leads there, and a look-up finds no later one
      rw [if_pos hback]
      have hfirst : m.kind.successors[0]? = some straight := by rw [hsucc]; rfl
      obtain ⟨j, s, -, hs, hssrc, hsslot, hsdest⟩ := hg.exists_edge hm hfirst
      have := hg.slot_le_of_edgeBetween? hk hf hs hssrc (hsdest.trans hback.symm)
      rw [hsslot] at this
      exact Nat.le_zero.1 this
    · rw [if_neg hback]
      have hlt := (List.getElem?_eq_some_iff.1 hslot).1
      have hne : f.slot ≠ 0 := by
        intro hzero
        rw [hzero] at hslot
        cases hslot
        exact hback rfl
      show f.slot = 1
      simp only [List.length_cons, List.length_nil] at hlt
      omega

end Graph

end TrackPlan
