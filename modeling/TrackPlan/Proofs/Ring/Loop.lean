import TrackPlan.Proofs.Calibration.Names
import TrackPlan.Proofs.Graph.NamedEdges
import TrackPlan.Proofs.Ring.Described

/-!
# The loop of a ring

On the graph of a ring, the loop goes along the links of the round.

1. `edgeLength_eq`: the edge of a link is as long as the link, since no other distance covers it.
2. `turn?_eq`: an edge takes the way of its link.
3. `map_nameOf_nodes`, `map_branches` and `totalDistance_eq` tell the loop.
-/

namespace TrackPlan.Example.Ring

variable {segments : List Segment} {gap n k i : Nat} {s : Segment} {l l' : Link} {r : Registry}
  {g : Graph} {o : Options}

/-! ## Lengths -/

theorem forward_of_mem (h : l ∈ ringLinks segments) :
    l.src.stem.forward = true ∧ l.dest.stem.forward = true := by
  obtain ⟨⟨s, i⟩, -, h⟩ := mem_ringLinks_iff.1 h
  unfold links at h
  split at h <;> simp only [List.mem_cons, List.not_mem_nil, or_false] at h
  · rcases h with rfl | rfl | rfl | rfl | rfl | rfl <;> exact ⟨rfl, rfl⟩
  · subst h
    exact ⟨rfl, rfl⟩

theorem ne_back_of_mem (h : l ∈ ringLinks segments) (h' : l' ∈ ringLinks segments) :
    l.src ≠ l'.dest.back ∧ l.dest ≠ l.src.back := by
  have hforward : ∀ {a b : Spot}, a.stem.forward = true → b.stem.forward = true →
      a ≠ b.back := by
    rintro a b ha hb rfl
    rw [Spot.back, Stem.forward_back, hb] at ha
    cases ha
  exact ⟨hforward (forward_of_mem h).1 (forward_of_mem h').2,
    hforward (forward_of_mem h).2 (forward_of_mem h).1⟩

theorem number_of_mem_links (h : l ∈ links n s i) : l.src.number = i := by
  unfold links at h
  split at h <;> simp only [List.mem_cons, List.not_mem_nil, or_false] at h
  · rcases h with rfl | rfl | rfl | rfl | rfl | rfl <;> rfl
  · rw [h]

/-- There is one link between two nodes at most. -/
theorem eq_of_ends (h : l ∈ ringLinks segments) (h' : l' ∈ ringLinks segments)
    (hsrc : l.src = l'.src) (hdest : l.dest = l'.dest) : l = l' := by
  obtain ⟨⟨s, i⟩, hx, hl⟩ := mem_ringLinks_iff.1 h
  obtain ⟨⟨s', i'⟩, hx', hl'⟩ := mem_ringLinks_iff.1 h'
  obtain rfl : i = i' :=
    (number_of_mem_links hl).symm.trans
      ((congrArg Spot.number hsrc).trans (number_of_mem_links hl'))
  obtain rfl : s = s' := Option.some.inj ((mem_zipIdx_iff.1 hx).symm.trans (mem_zipIdx_iff.1 hx'))
  have hnodup : ((links segments.length s i).map fun l => (l.src, l.dest)).Nodup := by
    unfold links
    split <;> simp [next]
  exact List.inj_on_of_nodup_map hnodup hl hl' (Prod.ext hsrc hdest)

/-- Only the distance of a link covers it. -/
theorem eq_of_covers (h : l ∈ ringLinks segments) (h' : l' ∈ ringLinks segments)
    (hc : Covers (declsOf (entries segments gap)) l'.decl l.src.name l.dest.name) : l' = l := by
  rcases hc with ⟨hsrc, hdest⟩ | ⟨a', b', ha, hb, hsrc, -⟩ | ⟨hab, -, -⟩
  · exact eq_of_ends h' h (Spot.name_injective hsrc) (Spot.name_injective hdest)
  · rw [eq_back_of_reverses hb] at hsrc
    exact absurd (Spot.name_injective hsrc) (ne_back_of_mem h' h).1
  · exact absurd (Spot.name_injective (eq_back_of_reverses hab)) (ne_back_of_mem h h).2

theorem length_lt (hlt : ∀ s ∈ segments, s.length < UInt32.size) (h : l ∈ ringLinks segments) :
    l.length < UInt32.size := by
  obtain ⟨⟨s, i⟩, hx, hl⟩ := mem_ringLinks_iff.1 h
  have hs := hlt s (List.mem_of_getElem? (mem_zipIdx_iff.1 hx))
  have hquarter := quarter_le s
  have hsize : UInt32.size = 4294967296 := rfl
  unfold links at hl
  split at hl <;> simp only [List.mem_cons, List.not_mem_nil, or_false] at hl
  · rcases hl with rfl | rfl | rfl | rfl | rfl | rfl <;> dsimp only <;> omega
  · subst hl
    exact Nat.max_lt.2 ⟨hs, by decide⟩

/-- The edge of a link is as long as the link. -/
theorem edgeLength_eq (hd : r.Draws g (entries segments gap)) (hlink : (r.link o).result = .ok g)
    (hlt : ∀ s ∈ segments, s.length < UInt32.size) (h : l ∈ ringLinks segments)
    (hk : g.NamesEdge l.src.name l.dest.name k) : g.edgeLength k = l.length := by
  have hdistances : (entries segments gap).filterMap LineRecord.distance? =
      (ringLinks segments).map Link.decl := distances_entries
  have hlength : g.edgeLength k = l.decl.millimeters.toNat := by
    refine hd.edgeLength_eq hlink ?_ hk ?_ ?_ <;> rw [hdistances]
    · exact List.forall_mem_map.2 fun l hl => declared_of_leads (leads_of_mem hl).1
    · exact ⟨l.decl, List.mem_map_of_mem h, Or.inl ⟨rfl, rfl⟩⟩
    · exact List.forall_mem_map.2 fun l' hl' hc => by rw [eq_of_covers h hl' hc]
  rw [hlength]
  exact UInt32.toNat_ofNat_of_lt' (length_lt hlt h)

/-! ## Branches -/

/-- The branches of a ring are those at which its sidings part. -/
theorem stem_of_branch {d : Decl} {c : Spot} (hd : d ∈ declsOf (entries segments gap))
    (ht : d.kind.tag = .branch) (hname : d.name = c.name) : c.stem = .ba ∨ c.stem = .bb := by
  rcases mem_decls_iff.1 hd with ⟨x, -, hd⟩ | ⟨y, -, hd⟩
  · simp only [junctionDecls, List.mem_cons, List.not_mem_nil, or_false] at hd
    rcases hd with rfl | rfl <;> cases ht
  · simp only [sidingDecls, List.mem_cons, List.not_mem_nil, or_false] at hd
    rcases hd with rfl | rfl | rfl | rfl | rfl | rfl | rfl | rfl <;> cases ht
    · exact Or.inl (congrArg Spot.stem (Spot.name_injective hname)).symm
    · exact Or.inr (congrArg Spot.stem (Spot.name_injective hname)).symm

/-- A link from a branch takes one of its two ways. -/
theorem exists_branch (gap : Nat) (h : l ∈ ringLinks segments) (hs : l.src.stem = .ba) :
    (l.dest = ⟨.p, l.src.number⟩ ∨ l.dest = ⟨.q, l.src.number⟩) ∧
      ∃ d ∈ declsOf (entries segments gap), d.name = l.src.name ∧ ∃ number,
        d.kind = .branch number (⟨.p, l.src.number⟩ : Spot).name
          (⟨.q, l.src.number⟩ : Spot).name := by
  obtain ⟨⟨s, i⟩, hx, hl⟩ := mem_ringLinks_iff.1 h
  by_cases hsiding : s.siding = true
  · obtain ⟨k, hdecl⟩ := exists_siding gap hx hsiding
    have hbranch := hdecl _ List.mem_cons_self
    rw [links_of_siding hsiding] at hl
    simp only [List.mem_cons, List.not_mem_nil, or_false] at hl
    rcases hl with rfl | rfl | rfl | rfl | rfl | rfl <;> cases hs
    · exact ⟨Or.inl rfl, _, hbranch, rfl, _, rfl⟩
    · exact ⟨Or.inr rfl, _, hbranch, rfl, _, rfl⟩
  · rw [links_of_plain hsiding, List.mem_singleton] at hl
    subst hl
    cases hs

/-! ## The loop -/

/-- The length of the loop in a segment. -/
def lapLength (s : Segment) : Nat :=
  if s.siding then 4 * max (s.length / 4) 1 + if s.takeCurved then 20 else 0 else max s.length 1

theorem sum_lap (n : Nat) (s : Segment) (i : Nat) :
    ((lapLinks n s i).map Link.length).sum = lapLength s := by
  unfold lapLinks lapLength reach
  rw [← quarter]
  cases s.siding <;> cases s.takeCurved <;> simp <;> omega

theorem sum_round : ((round segments).map Link.length).sum = (segments.map lapLength).sum := by
  have hlaps : segments.map lapLength = segments.zipIdx.map fun x => lapLength x.1 := by
    conv_lhs => rw [← List.zipIdx_map_fst 0 segments, List.map_map]
    rfl
  unfold round
  rw [List.map_flatMap, List.flatMap_def, List.sum_flatten, List.map_map, hlaps]
  congr 1
  exact List.map_congr_left fun x _ => sum_lap segments.length x.1 x.2

variable {loop : Loop}

theorem forall₂_nodes_round (h : Calibration.extract g
      ((entries segments gap).filterMap LineRecord.step?) = .ok (some loop)) :
    List.Forall₂ (fun l i => g.nodeId? l.src.name = some i) (round segments) loop.nodes := by
  have hnodes := Calibration.forall₂_nodes h
  rwa [openRound_steps, roundNames, List.forall₂_map_left_iff] at hnodes

theorem forall₂_edges_round (h : Calibration.extract g
      ((entries segments gap).filterMap LineRecord.step?) = .ok (some loop)) :
    List.Forall₂ (fun l k => g.NamesEdge l.src.name l.dest.name k) (round segments)
      loop.edges := by
  have hedges := Calibration.forall₂_edges h
  rwa [openRound_steps, zip_rotate_roundNames, List.forall₂_map_left_iff] at hedges

/-- The loop visits the nodes of the round. -/
theorem map_nameOf_nodes (hd : r.Draws g (entries segments gap)) (h : Calibration.extract g
      ((entries segments gap).filterMap LineRecord.step?) = .ok (some loop)) :
    loop.nodes.map g.nameOf = roundNames segments :=
  (map_eq_map_of_forall₂ (forall₂_nodes_round h) fun _ _ _ hi => (hd.nameOf_eq hi).symm).symm

/-- The loop is as long as the round. -/
theorem totalDistance_eq (hd : r.Draws g (entries segments gap))
    (hlink : (r.link o).result = .ok g) (hlt : ∀ s ∈ segments, s.length < UInt32.size)
    (h : Calibration.extract g ((entries segments gap).filterMap LineRecord.step?) =
      .ok (some loop)) : loop.totalDistance g = (segments.map lapLength).sum := by
  have hlengths : (round segments).map Link.length = loop.edges.map g.edgeLength :=
    map_eq_map_of_forall₂ (forall₂_edges_round h) fun l hl k hk =>
      (edgeLength_eq hd hlink hlt (round_subset hl) hk).symm
  rw [Calibration.totalDistance_eq, ← hlengths, sum_round]

/-- The way taken at a link, if it leaves a branch. -/
def turnOf? (l : Link) : Option (String × Bool) :=
  if l.src.stem = .ba then some (l.src.name, l.dest.stem = .q) else none

/-- What the graph tells of the ways taken is what the links tell. -/
theorem turn?_eq (hd : r.Draws g (entries segments gap)) (hl : l ∈ ringLinks segments)
    {p : Nat × Nat} (hi : g.nodeId? l.src.name = some p.1)
    (hk : g.NamesEdge l.src.name l.dest.name p.2) :
    turnOf? l = (Calibration.turn? g p).map fun b => (g.nameOf b.node, b.curved) := by
  obtain ⟨e, he, -⟩ := hd.exists_edge hk
  unfold turnOf? Calibration.turn?
  by_cases hs : l.src.stem = .ba
  · obtain ⟨hdest, d, hmem, hname, number, hkind⟩ := exists_branch gap hl hs
    have hbranch : g.isBranch p.1 = true :=
      (hd.isBranch_iff hi).2 ⟨d, hmem, by rw [hkind]; rfl, hname⟩
    have hcurved : e.isCurved = decide (l.dest.stem = .q) := by
      rw [Bool.eq_iff_iff, decide_eq_true_iff,
        hd.isCurved_iff forks_entries hmem hkind (hname ▸ hk) he, Spot.name_inj]
      rcases hdest with hdest | hdest <;> simp [hdest]
    rw [if_pos hs, if_pos hbranch, he, Option.map_some, Option.map_some, hd.nameOf_eq hi, hcurved]
  · have hbranch : ¬ g.isBranch p.1 = true := by
      rw [hd.isBranch_iff hi]
      rintro ⟨d, hmem, ht, hname⟩
      rcases stem_of_branch hmem ht hname with hba | hbb
      · exact hs hba
      · have hforward := (forward_of_mem hl).1
        rw [hbb] at hforward
        cases hforward
    rw [if_neg hs, if_neg hbranch, Option.map_none]

theorem filterMap_turnOf? : (round segments).filterMap turnOf? =
    (segments.zipIdx.filter (·.1.siding)).map fun x => (named "BA" x.2, x.1.takeCurved) := by
  have hlap : ∀ x : Segment × Nat, (lapLinks segments.length x.1 x.2).filterMap turnOf? =
      if x.1.siding then [(named "BA" x.2, x.1.takeCurved)] else [] := by
    rintro ⟨s, i⟩
    unfold lapLinks via
    cases s.siding <;> cases s.takeCurved <;> rfl
  unfold round
  induction segments.zipIdx with
  | nil => rfl
  | cons x rest ih =>
    rw [List.flatMap_cons, List.filterMap_append, ih, hlap, List.filter_cons]
    split <;> rfl

/-- The loop takes the way of each siding that the segment asks for. -/
theorem map_branches (hd : r.Draws g (entries segments gap)) (h : Calibration.extract g
      ((entries segments gap).filterMap LineRecord.step?) = .ok (some loop)) :
    loop.branches.map (fun b => (g.nameOf b.node, b.curved)) =
      (segments.zipIdx.filter (·.1.siding)).map fun x => (named "BA" x.2, x.1.takeCurved) := by
  have hnodes := forall₂_nodes_round h
  have hedges := forall₂_edges_round h
  have hlength : loop.edges.length = loop.nodes.length :=
    hedges.length_eq.symm.trans hnodes.length_eq
  have hfst := List.map_fst_zip (Nat.le_of_eq hlength.symm)
  have hnodup : loop.nodes.Nodup := by
    have hnames : (roundNames segments).Nodup := nodup_roundNames
    rw [← map_nameOf_nodes hd h] at hnames
    exact hnames.of_map
  have hturns : (round segments).map turnOf? = (loop.nodes.zip loop.edges).map fun p =>
      (Calibration.turn? g p).map fun b => (g.nameOf b.node, b.curved) :=
    map_eq_map_of_forall₂ (forall₂_zip hnodes hedges) fun l hl p hp =>
      turn?_eq hd (round_subset hl) hp.1 hp.2
  have hbranches := (Calibration.extract_eq_ok_some_iff.1 h).2.2.2.2.2
  rw [hbranches, Calibration.branchesOf_eq_filterMap
    (Calibration.exists_edge_of_mem hd.wellFormed h) (by rwa [hfst]), List.map_filterMap,
    ← filterMap_turnOf?, ← Function.id_comp turnOf?, ← List.filterMap_map, hturns,
    List.filterMap_map]
  rfl

end TrackPlan.Example.Ring
