import TrackPlan.Proofs.Compile
import TrackPlan.Proofs.Graph.FirstEdge

/-!
# Reverse edges

The reverse of an edge is looked up by its two nodes, so reversing twice gives the first edge
between the nodes that one started from (`WellFormed.reverseEdge?_reverseEdge?`). That is the same
edge unless it is shadowed, and `reverseEdgeLaw_of_compile` says what follows for a compiled track:
reversing is an involution just if both ways of every branch part.
-/

namespace TrackPlan

namespace Graph

variable {g : Graph} {j k r : Nat} {e f : Edge}

/-- Every edge has a reverse edge, and it leads between the reverses of its nodes. -/
theorem WellFormed.exists_reverseEdge? (hg : g.WellFormed) (hr : g.Reversible)
    (he : g.edge? k = some e) : ∃ r f, g.reverseEdge? k = some r ∧ g.edge? r = some f ∧
      g.reverse? e.dest = some f.src ∧ g.reverse? e.src = some f.dest := by
  obtain ⟨n, hn⟩ := exists_node (hg.src_lt he)
  obtain ⟨m, hm⟩ := exists_node (hg.dest_lt he)
  have hback := hr e.src e.dest n m hn hm ⟨k, e, he, rfl, rfl⟩
  obtain ⟨r, hr⟩ := hg.exists_edgeBetween?_iff.2 hback
  obtain ⟨f, hf, hsrc, hdest⟩ := hg.edge_of_edgeBetween? hr
  refine ⟨r, f, by rw [reverseEdge?_eq he hn hm, hr], hf, ?_, ?_⟩
  · rw [reverse?, hm, Option.map_some, hsrc]
  · rw [reverse?, hn, Option.map_some, hdest]

/-- The reverse of an edge is looked up by the reverses of its nodes. -/
theorem reverseEdge?_eq_edgeBetween? (he : g.edge? k = some e) {a b : Nat}
    (hsrc : g.reverse? e.src = some a) (hdest : g.reverse? e.dest = some b) :
    g.reverseEdge? k = g.edgeBetween? b a := by
  unfold reverseEdge?
  simp [he, hsrc, hdest]

/-- Reversing twice gives the first edge between the same nodes. -/
theorem WellFormed.reverseEdge?_reverseEdge? (hg : g.WellFormed) (hm : g.Mirrored)
    (hr : g.Reversible) (he : g.edge? k = some e) (hk : g.reverseEdge? k = some r) :
    g.reverseEdge? r = g.edgeBetween? e.src e.dest := by
  obtain ⟨r', f, hr', hf, hsrc, hdest⟩ := hg.exists_reverseEdge? hr he
  rw [hk, Option.some.injEq] at hr'
  subst hr'
  exact reverseEdge?_eq_edgeBetween? hf (hm.reverse?_symm hsrc) (hm.reverse?_symm hdest)

/-- What reversing does to the edges of a graph. -/
structure ReverseEdgeLaw (g : Graph) : Prop where
  /-- Every edge has a reverse edge, and it leads between the reverses of its nodes. -/
  exists_reverse : ∀ {k e}, g.edge? k = some e → ∃ r f, g.reverseEdge? k = some r ∧
    g.edge? r = some f ∧ g.reverse? e.dest = some f.src ∧ g.reverse? e.src = some f.dest
  /-- Reversing twice leads back to an edge unless it is shadowed. -/
  twice_iff : ∀ {k e r}, g.edge? k = some e → g.reverseEdge? k = some r →
    (g.reverseEdge? r = some k ↔ ¬ g.Shadowed e)
  /-- Edges have the same reverse edge if they lead between the same nodes, and not otherwise. -/
  eq_iff : ∀ {j k e f}, g.edge? j = some e → g.edge? k = some f →
    (g.reverseEdge? j = g.reverseEdge? k ↔ e.src = f.src ∧ e.dest = f.dest)
  /-- Reversing is an involution if both ways of every branch part, and not otherwise. -/
  involutive_iff : (∀ k e, g.edge? k = some e →
    ∃ r, g.reverseEdge? k = some r ∧ g.reverseEdge? r = some k) ↔ g.Forked
  /-- Different edges have different reverse edges just then, too. -/
  injective_iff : (∀ j k r, g.reverseEdge? j = some r → g.reverseEdge? k = some r → j = k) ↔
    g.Forked

/-- Only an edge has a reverse edge. -/
theorem exists_edge_of_reverseEdge? (h : g.reverseEdge? k = some r) :
    ∃ e, g.edge? k = some e := by
  unfold reverseEdge? at h
  obtain ⟨e, he, -⟩ := Option.bind_eq_some_iff.1 h
  exact ⟨e, he⟩

theorem WellFormed.reverseEdge?_twice_iff (hg : g.WellFormed) (hm : g.Mirrored) (hr : g.Reversible)
    (he : g.edge? k = some e) (hk : g.reverseEdge? k = some r) :
    g.reverseEdge? r = some k ↔ ¬ g.Shadowed e := by
  rw [hg.reverseEdge?_reverseEdge? hm hr he hk, hg.edgeBetween?_eq_some_iff he]

/-- Edges with the same reverse edge lead between the same nodes. -/
theorem WellFormed.reverseEdge?_eq_iff (hg : g.WellFormed) (hm : g.Mirrored) (hr : g.Reversible)
    (he : g.edge? j = some e) (hf : g.edge? k = some f) :
    g.reverseEdge? j = g.reverseEdge? k ↔ e.src = f.src ∧ e.dest = f.dest := by
  obtain ⟨r, x, hj, hx, hsrc, hdest⟩ := hg.exists_reverseEdge? hr he
  obtain ⟨q, y, hk, hy, hsrc', hdest'⟩ := hg.exists_reverseEdge? hr hf
  constructor
  · intro hjk
    rw [hj, hk, Option.some.injEq] at hjk
    subst hjk
    rw [hx, Option.some.injEq] at hy
    subst hy
    have hs := hm.reverse?_symm hdest
    have hd := hm.reverse?_symm hsrc
    rw [hm.reverse?_symm hdest', Option.some.injEq] at hs
    rw [hm.reverse?_symm hsrc', Option.some.injEq] at hd
    exact ⟨hs.symm, hd.symm⟩
  · rintro ⟨hs, hd⟩
    rw [reverseEdge?_eq_edgeBetween? he hdest hsrc,
      reverseEdge?_eq_edgeBetween? hf (hs ▸ hdest) (hd ▸ hsrc)]

/-- A well-formed graph in which everything can be travelled the other way obeys the law. -/
theorem WellFormed.reverseEdgeLaw (hg : g.WellFormed) (hm : g.Mirrored) (hr : g.Reversible) :
    g.ReverseEdgeLaw where
  exists_reverse := hg.exists_reverseEdge? hr
  twice_iff := hg.reverseEdge?_twice_iff hm hr
  eq_iff := hg.reverseEdge?_eq_iff hm hr
  involutive_iff := by
    rw [hg.forked_iff]
    constructor
    · intro h k e he
      obtain ⟨r, hk, hback⟩ := h k e he
      exact (hg.reverseEdge?_twice_iff hm hr he hk).1 hback
    · intro h k e he
      obtain ⟨r, -, hk, -⟩ := hg.exists_reverseEdge? hr he
      exact ⟨r, hk, (hg.reverseEdge?_twice_iff hm hr he hk).2 (h k e he)⟩
  injective_iff := by
    rw [hg.forked_iff]
    constructor
    · intro h k e he hs
      -- a shadowed edge shares its reverse edge with the straight way
      obtain ⟨j, hj⟩ := hg.exists_edgeBetween?_iff.2 ⟨k, e, he, rfl, rfl⟩
      obtain ⟨f, hf, hsrc, hdest⟩ := hg.edge_of_edgeBetween? hj
      obtain ⟨r, -, hk, -⟩ := hg.exists_reverseEdge? hr he
      have hsame := (hg.reverseEdge?_eq_iff hm hr hf he).2 ⟨hsrc, hdest⟩
      rw [h j k r (hsame.trans hk) hk] at hj
      exact (hg.edgeBetween?_eq_some_iff he).1 hj hs
    · intro h j k r hj hk
      obtain ⟨e, he⟩ := exists_edge_of_reverseEdge? hj
      obtain ⟨f, hf⟩ := exists_edge_of_reverseEdge? hk
      obtain ⟨hsrc, hdest⟩ := (hg.reverseEdge?_eq_iff hm hr he hf).1 (hj.trans hk.symm)
      have hfirst := (hg.edgeBetween?_eq_some_iff he).2 (h j e he)
      rw [hsrc, hdest, (hg.edgeBetween?_eq_some_iff hf).2 (h k f hf)] at hfirst
      exact (Option.some.inj hfirst).symm

end Graph

/-- **Reverse edges.** Every compiled track obeys the law of reverse edges. -/
theorem reverseEdgeLaw_of_compile {text : String} {o : Options} {t : Track}
    (h : (compile text o).result = .ok t) : t.graph.ReverseEdgeLaw := by
  obtain ⟨records, r, hs⟩ := exists_stages_of_compile h
  exact hs.wellFormed.reverseEdgeLaw hs.mirrored hs.reversible

/-- A siding without sensors: both ways of each switch lead to the other switch. -/
def bareSiding : String :=
  "enter E1 -> B1 @ X1\nswitch B1 : 1 -> M2/(M2) @ M1 -> X1\n" ++
    "switch B2 : 2 -> M1/(M1) @ M2 -> X2\nenter E2 -> B2 @ X2"

/-- Both ways of the first switch have the straight way of the second one as their reverse edge. -/
theorem exists_compile_bareSiding : ∃ t, (compile bareSiding {}).result = .ok t ∧
    t.graph.reverseEdge? 0 = some 3 ∧ t.graph.reverseEdge? 1 = some 3 ∧
      t.graph.reverseEdge? 3 = some 0 ∧ (t.graph.edge? 1).isSome := by
  have h : (compile bareSiding {}).result.toOption.map (fun t => ([0, 1, 3].map
      t.graph.reverseEdge?, (t.graph.edge? 1).isSome)) = some ([some 3, some 3, some 0], true) := by
    decide +kernel
  obtain ⟨t, ht, hg⟩ := exists_of_toOption_map h
  simp only [List.map_cons, List.map_nil, Prod.mk.injEq, List.cons.injEq, and_true] at hg
  exact ⟨t, ht, hg.1.1, hg.1.2.1, hg.1.2.2, hg.2⟩

theorem reverseEdgeLaw_bareSiding : ∃ t, (compile bareSiding {}).result = .ok t ∧
    t.graph.reverseEdge? 1 = some 3 ∧ t.graph.ReverseEdgeLaw := by
  obtain ⟨t, ht, -, hone, -⟩ := exists_compile_bareSiding
  exact ⟨t, ht, hone, reverseEdgeLaw_of_compile ht⟩

/-- On the siding, reversing is no involution, and different edges share a reverse edge. -/
theorem reverseEdge?_not_involutive : ∃ t, (compile bareSiding {}).result = .ok t ∧
    ¬ (∀ k e, t.graph.edge? k = some e →
      ∃ r, t.graph.reverseEdge? k = some r ∧ t.graph.reverseEdge? r = some k) ∧
    ¬ (∀ j k r, t.graph.reverseEdge? j = some r → t.graph.reverseEdge? k = some r → j = k) := by
  obtain ⟨t, ht, hzero, hone, hthree, hedge⟩ := exists_compile_bareSiding
  refine ⟨t, ht, fun h => ?_, fun h => ?_⟩
  · obtain ⟨e, he⟩ := Option.isSome_iff_exists.1 hedge
    obtain ⟨r, hr, hback⟩ := h 1 e he
    rw [hone, Option.some.injEq] at hr
    subst hr
    rw [hthree] at hback
    cases hback
  · cases h 0 1 3 hzero hone

end TrackPlan
