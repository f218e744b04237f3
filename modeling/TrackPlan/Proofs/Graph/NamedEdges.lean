import TrackPlan.Proofs.Graph.LastDistance
import TrackPlan.Proofs.Graph.ReverseEdge
import TrackPlan.Proofs.Mutex.Components
import TrackPlan.Proofs.Registry.Capacity

/-!
# Edges by name

Where a graph is made of a list of records, an edge is known by the names of its two nodes, and what
the records say of these names is what there is to know of the edge: its reverse edge
(`Draws.reverseEdge?_eq_some_iff`), its siblings (`Draws.siblings_iff`), the way it takes
(`Draws.isCurved_iff`) and its length (`Draws.edgeLength_eq`).
-/

namespace TrackPlan

namespace Graph

variable {g : Graph} {a b c d : String} {j k : Nat}

/-- Two names name one edge at most. -/
theorem NamesEdge.unique (hj : g.NamesEdge a b j) (hk : g.NamesEdge a b k) : j = k := by
  obtain ⟨i, i', hi, hi', hj⟩ := hj
  obtain ⟨l, l', hl, hl', hk⟩ := hk
  cases hi.symm.trans hl
  cases hi'.symm.trans hl'
  exact Option.some.inj (hj.symm.trans hk)

end Graph

namespace Registry

variable {r : Registry} {g : Graph} {records : List LineRecord} {a b a' b' c d : String}
  {i j k : Nat} {e : Edge} {x : DistanceDecl} {o : Options}

theorem Draws.exists_edge (h : r.Draws g records) (hk : g.NamesEdge a b k) : ∃ e,
    g.edge? k = some e ∧ g.nodeId? a = some e.src ∧ g.nodeId? b = some e.dest := by
  obtain ⟨i, j, hi, hj, hk⟩ := hk
  obtain ⟨e, he, rfl, rfl⟩ := h.wellFormed.edge_of_edgeBetween? hk
  exact ⟨e, he, hi, hj⟩

/-- An edge is named by the names of its nodes only. -/
theorem Draws.namesEdge_inj (h : r.Draws g records) (hk : g.NamesEdge a b k)
    (hk' : g.NamesEdge c d k) : a = c ∧ b = d := by
  obtain ⟨e, he, ha, hb⟩ := h.exists_edge hk
  obtain ⟨f, hf, hc, hd⟩ := h.exists_edge hk'
  rw [he, Option.some.injEq] at hf
  subst hf
  exact ⟨h.nodeId?_inj ha hc, h.nodeId?_inj hb hd⟩

/-- The reverse of an edge leads between the reverses. -/
theorem Draws.reverseEdge?_eq_some_iff (h : r.Draws g records) (hk : g.NamesEdge a b k)
    (ha : Reverses (declsOf records) a a') (hb : Reverses (declsOf records) b b') :
    g.reverseEdge? k = some j ↔ g.NamesEdge b' a' j := by
  obtain ⟨e, he, hi, hj⟩ := h.exists_edge hk
  obtain ⟨i', hi', hri⟩ := (h.reverses_iff hi).1 ha
  obtain ⟨j', hj', hrj⟩ := (h.reverses_iff hj).1 hb
  rw [Graph.reverseEdge?_eq_edgeBetween? he hri hrj]
  constructor
  · intro hl
    exact ⟨j', i', hj', hi', hl⟩
  · rintro ⟨m, m', hm, hm', hl⟩
    cases hj'.symm.trans hm
    cases hi'.symm.trans hm'
    exact hl

theorem Draws.isBranch_iff (h : r.Draws g records) (ha : g.nodeId? a = some i) :
    g.isBranch i = true ↔ ∃ d ∈ declsOf records, d.kind.tag = .branch ∧ d.name = a := by
  obtain ⟨d, hd, n, rfl, hn, -, -, -, hkind⟩ := h.exists_decl ha
  unfold Graph.isBranch
  rw [hn]
  dsimp only
  rw [Kind.isBranch_iff, hkind.tag_eq]
  constructor
  · intro ht
    exact ⟨d, hd, ht, rfl⟩
  · intro hs
    obtain ⟨e, he, ht, hname⟩ := hs
    rwa [← h.decl_unique he hd hname]

/-- The siblings of an edge lead on from the same branch. -/
theorem Draws.siblings_iff (h : r.Draws g records) (hforks : Forks (declsOf records))
    (hk : g.NamesEdge a b k) : g.Siblings k j ↔
      (∃ d ∈ declsOf records, d.kind.tag = .branch ∧ d.name = a) ∧ ∃ c, g.NamesEdge a c j := by
  obtain ⟨e, he, ha, -⟩ := h.exists_edge hk
  rw [← h.isBranch_iff ha]
  constructor
  · rintro ⟨x, y, hx, hy, hsrc, hbranch⟩
    rw [he, Option.some.injEq] at hx
    subst hx
    obtain ⟨-, c, -, hc⟩ := h.exists_names ⟨j, y, hy, rfl, rfl⟩
    have hfound := ((h.forked_iff).2 hforks).edgeBetween?_eq h.wellFormed hy
    exact ⟨hbranch, c, _, _, ha, hc, hsrc ▸ hfound⟩
  · rintro ⟨hbranch, c, hj⟩
    obtain ⟨f, hf, ha', -⟩ := h.exists_edge hj
    rw [ha, Option.some.injEq] at ha'
    exact ⟨e, f, he, hf, ha'.symm, hbranch⟩

/-- An edge from a branch takes the curved way if it leads where that way leads. -/
theorem Draws.isCurved_iff (h : r.Draws g records) (hforks : Forks (declsOf records)) {d : Decl}
    (hd : d ∈ declsOf records) {number : UInt32} {straight curved : String}
    (hkind : d.kind = .branch number straight curved) (hk : g.NamesEdge d.name b k)
    (he : g.edge? k = some e) : e.isCurved = true ↔ b = curved := by
  obtain ⟨e', he', hsrc, hdest⟩ := h.exists_edge hk
  rw [he, Option.some.injEq] at he'
  subst he'
  obtain ⟨d', hd', n, hname, hn, -, -, -, hrelated⟩ := h.exists_decl hsrc
  obtain rfl := h.decl_unique hd' hd hname
  obtain ⟨m, hm, -, hslot⟩ := h.wellFormed.exists_src he
  rw [hn, Option.some.injEq] at hm
  subst hm
  rw [hkind] at hrelated
  generalize hk' : n.kind = kind at hrelated
  cases hrelated with
  | branch hs hc =>
    rw [hk'] at hslot
    have hlt := (List.getElem?_eq_some_iff.1 hslot).1
    simp only [Kind.successors, List.length_cons, List.length_nil] at hlt
    unfold Edge.isCurved
    rw [beq_iff_eq]
    constructor
    · intro hone
      rw [hone] at hslot
      cases hslot
      exact h.nodeId?_inj hdest hc
    · rintro rfl
      by_contra hone
      have hzero : e.slot = 0 := by omega
      rw [hzero] at hslot
      cases hslot
      exact hforks d' hd' number straight b hkind (h.nodeId?_inj hs hdest)

/-! ## Lengths -/

/-- What a distance covers by position, it covers by name. -/
theorem Draws.mem_coveredPairs_iff_covers (h : r.Draws g records) (ha : g.nodeId? a = some i)
    (hb : g.nodeId? b = some j) (hab : g.Follows i j)
    (hx : Declared (declsOf records) x.src ∧ Declared (declsOf records) x.dest) :
    (i, j) ∈ g.coveredPairs x ↔ Covers (declsOf records) x a b := by
  obtain ⟨⟨p, q⟩, hpq⟩ := h.exists_coveredPairs_iff.2 hx
  rw [h.mem_coveredPairs_iff hpq, ← h.covers_iff ha hb hab]
  constructor
  · intro hij
    exact ⟨p, q, hpq, hij⟩
  · rintro ⟨p', q', hpq', hij⟩
    rw [hpq, Except.ok.injEq] at hpq'
    cases hpq'
    exact hij

/-- An edge is as long as the records say that cover it, if they agree. -/
theorem Draws.edgeLength_eq (h : r.Draws g records) (hl : (r.link o).result = .ok g)
    (hdeclared : ∀ x ∈ records.filterMap LineRecord.distance?,
      Declared (declsOf records) x.src ∧ Declared (declsOf records) x.dest)
    (hk : g.NamesEdge a b k) {millimeters : UInt32}
    (hcovered : ∃ x ∈ records.filterMap LineRecord.distance?, Covers (declsOf records) x a b)
    (hagree : ∀ x ∈ records.filterMap LineRecord.distance?, Covers (declsOf records) x a b →
      x.millimeters = millimeters) : g.edgeLength k = millimeters.toNat := by
  obtain ⟨e, he, ha, hb⟩ := h.exists_edge hk
  have hfound : g.edgeBetween? e.src e.dest = some k := by
    obtain ⟨i, j, hi, hj, hk⟩ := hk
    cases ha.symm.trans hi
    cases hb.symm.trans hj
    exact hk
  have hcovers : ∀ x ∈ records.filterMap LineRecord.distance?,
      ((e.src, e.dest) ∈ g.coveredPairs x ↔ Covers (declsOf records) x a b) := fun x hx =>
    h.mem_coveredPairs_iff_covers ha hb ⟨k, e, he, rfl, rfl⟩ (hdeclared x hx)
  have hlast : g.lastDistance (records.filterMap LineRecord.distance?) (e.src, e.dest) =
      millimeters := by
    unfold Graph.lastDistance
    cases hx : ((records.filterMap LineRecord.distance?).filter
      ((e.src, e.dest) ∈ g.coveredPairs ·)).getLast? with
    | none =>
      obtain ⟨x, hmem, hxab⟩ := hcovered
      have hnil := List.getLast?_eq_none_iff.1 hx
      refine absurd (List.mem_filter.2 ⟨hmem, ?_⟩) (hnil ▸ List.not_mem_nil)
      exact decide_eq_true ((hcovers x hmem).2 hxab)
    | some x =>
      obtain ⟨hmem, hpair⟩ := List.mem_filter.1 (List.mem_of_getLast? hx)
      exact hagree x hmem ((hcovers x hmem).1 (of_decide_eq_true hpair))
  unfold Graph.edgeLength
  rw [he]
  dsimp only
  rw [h.distance_eq hl he, if_pos hfound, hlast]

/-! ## Sensors -/

/-- The graph has a sensor for every address. -/
theorem Draws.sensorCount_eq (h : r.Draws g records) :
    g.sensorCount = ((declsOf records).filterMap (·.kind.address?)).length := by
  have haddressed := h.holds.addressed h.valid
  have hperm : (r.sensors.map Prod.fst).Perm (r.decls.filterMap (·.kind.address?)) :=
    (List.perm_ext_iff_of_nodup h.valid.addresses_nodup
      (h.valid.distinct haddressed).addresses).2 fun _ => h.valid.mem_addresses_iff haddressed
  rw [h.wires.sensorCount_eq, ← h.holds.decls_eq, ← hperm.length_eq, List.length_map]

end Registry

end TrackPlan
