import TrackPlan.Proofs.Acceptance
import TrackPlan.Proofs.Mutex.Disjoint
import TrackPlan.Proofs.Ring.Loop

/-!
# The mutex groups of a ring

On the graph of a ring, the mutex record of a siding names the straight way of its branch. It ties
both ways of the branch and the ways back together (`mem_tied_iff`), and nothing that belongs to
another siding (`pairwise_tied`). So every siding has a declared group of four edges
(`declared_groups`).
-/

namespace TrackPlan.Example.Ring

variable {segments : List Segment} {gap k i e : Nat} {x : Segment × Nat} {w : Spot × Spot}
  {r : Registry} {g : Graph}

/-- The edges that the mutex group of a siding ties together: both ways of its branch, and the ways
back. -/
def guarded (i : Nat) : List (Spot × Spot) :=
  [(⟨.ba, i⟩, ⟨.p, i⟩), (⟨.ba, i⟩, ⟨.q, i⟩), (⟨.pr, i⟩, ⟨.ma, i⟩), (⟨.qr, i⟩, ⟨.ma, i⟩)]

theorem reversed_mem_guarded (h : w ∈ guarded i) : (w.2.back, w.1.back) ∈ guarded i := by
  simp only [guarded, List.mem_cons, List.not_mem_nil, or_false] at h
  rcases h with rfl | rfl | rfl | rfl <;> simp [guarded, Spot.back, Stem.back]

theorem number_of_mem_guarded (h : w ∈ guarded i) : w.1.number = i := by
  simp only [guarded, List.mem_cons, List.not_mem_nil, or_false] at h
  rcases h with rfl | rfl | rfl | rfl <;> rfl

/-- The guarded edges are links of the siding. -/
theorem leads_of_mem_guarded (hx : x ∈ segments.zipIdx) (hs : x.1.siding = true)
    (hw : w ∈ guarded x.2) : Leads (declsOf (entries segments gap)) w.1.name w.2.name := by
  have hlinks : ∀ l ∈ links segments.length x.1 x.2, l ∈ ringLinks segments := fun l hl =>
    mem_ringLinks_iff.2 ⟨x, hx, hl⟩
  rw [links_of_siding hs] at hlinks
  simp only [List.forall_mem_cons] at hlinks
  obtain ⟨-, hp, hq, -⟩ := hlinks
  simp only [guarded, List.mem_cons, List.not_mem_nil, or_false] at hw
  rcases hw with rfl | rfl | rfl | rfl
  · exact (leads_of_mem hp).1
  · exact (leads_of_mem hq).1
  · exact (leads_of_mem hp).2
  · exact (leads_of_mem hq).2

theorem exists_namesEdge (hd : r.Draws g (entries segments gap)) (hx : x ∈ segments.zipIdx)
    (hs : x.1.siding = true) (hw : w ∈ guarded x.2) : ∃ k, g.NamesEdge w.1.name w.2.name k :=
  hd.exists_namesEdge_iff.2 (leads_of_mem_guarded hx hs hw)

theorem reverseEdge?_iff (hd : r.Draws g (entries segments gap)) (hx : x ∈ segments.zipIdx)
    (hs : x.1.siding = true) (hw : w ∈ guarded x.2) (hk : g.NamesEdge w.1.name w.2.name k) :
    g.reverseEdge? k = some e ↔ g.NamesEdge w.2.back.name w.1.back.name e := by
  have hleads : Leads (declsOf (entries segments gap)) w.1.name w.2.name :=
    leads_of_mem_guarded hx hs hw
  obtain ⟨hsrc, hdest⟩ := declared_of_leads hleads
  exact hd.reverseEdge?_eq_some_iff hk (reverses_of_declared hsrc) (reverses_of_declared hdest)

/-- The siblings of a guarded edge are guarded. -/
theorem siblings_iff (hd : r.Draws g (entries segments gap)) (hx : x ∈ segments.zipIdx)
    (hs : x.1.siding = true) (hw : w ∈ guarded x.2) (hk : g.NamesEdge w.1.name w.2.name k) :
    g.Siblings k e ↔ w.1.stem = .ba ∧ ∃ w' ∈ guarded x.2, w'.1 = w.1 ∧
      g.NamesEdge w'.1.name w'.2.name e := by
  obtain ⟨m, hsiding⟩ := exists_siding gap hx hs
  have hdecl := hsiding _ List.mem_cons_self
  have hba : ∀ {w : Spot × Spot}, w ∈ guarded x.2 → w.1.stem = .ba → w.1 = ⟨.ba, x.2⟩ := by
    intro w hw hstem
    rw [← number_of_mem_guarded hw, ← hstem]
  rw [hd.siblings_iff forks_entries hk]
  constructor
  · rintro ⟨⟨d, hmem, ht, hname⟩, c, hc⟩
    have hstem : w.1.stem = .ba := by
      have hcases := stem_of_branch hmem ht hname
      simp only [guarded, List.mem_cons, List.not_mem_nil, or_false] at hw
      rcases hw with rfl | rfl | rfl | rfl <;> simp at hcases ⊢
    have hleads := hd.exists_namesEdge_iff.1 ⟨e, hc⟩
    rw [hba hw hstem] at hleads hc ⊢
    have hways := (hd.mem_successors_iff hdecl).2 hleads
    simp only [Kind.successors, List.mem_cons, List.not_mem_nil, or_false] at hways
    refine ⟨rfl, ?_⟩
    rcases hways with rfl | rfl
    · exact ⟨(⟨.ba, x.2⟩, ⟨.p, x.2⟩), by simp [guarded], rfl, hc⟩
    · exact ⟨(⟨.ba, x.2⟩, ⟨.q, x.2⟩), by simp [guarded], rfl, hc⟩
  · rintro ⟨hstem, w', hw', hsrc, he⟩
    refine ⟨⟨_, hdecl, rfl, ?_⟩, _, hsrc ▸ he⟩
    rw [hba hw hstem]

/-- The mutex group of a siding ties its guarded edges together. -/
theorem mem_tied_iff (hd : r.Draws g (entries segments gap)) (hx : x ∈ segments.zipIdx)
    (hs : x.1.siding = true) :
    e ∈ g.tied (guard x.2) ↔ ∃ w ∈ guarded x.2, g.NamesEdge w.1.name w.2.name e := by
  constructor
  · intro h
    induction h with
    | seed h =>
      obtain ⟨p, hp, hk⟩ := h
      obtain rfl := List.mem_singleton.1 hp
      exact ⟨(⟨.ba, x.2⟩, ⟨.p, x.2⟩), by simp [guarded], hk⟩
    | reverse _ hr ih =>
      obtain ⟨w, hw, hk⟩ := ih
      exact ⟨_, reversed_mem_guarded hw, (reverseEdge?_iff hd hx hs hw hk).1 hr⟩
    | sibling _ hsib ih =>
      obtain ⟨w, hw, hk⟩ := ih
      obtain ⟨-, w', hw', -, he⟩ := (siblings_iff hd hx hs hw hk).1 hsib
      exact ⟨w', hw', he⟩
  · rintro ⟨w, hw, he⟩
    have hp : (⟨.ba, x.2⟩, ⟨.p, x.2⟩) ∈ guarded x.2 := by simp [guarded]
    have hq : (⟨.ba, x.2⟩, ⟨.q, x.2⟩) ∈ guarded x.2 := by simp [guarded]
    obtain ⟨j, hj⟩ := exists_namesEdge hd hx hs hp
    obtain ⟨k, hk⟩ := exists_namesEdge hd hx hs hq
    have hstraight : j ∈ g.tied (guard x.2) := .seed ⟨_, List.mem_singleton_self _, hj⟩
    have hcurved : k ∈ g.tied (guard x.2) :=
      .sibling hstraight ((siblings_iff hd hx hs hp hj).2 ⟨rfl, _, hq, rfl, hk⟩)
    simp only [guarded, List.mem_cons, List.not_mem_nil, or_false] at hw
    rcases hw with rfl | rfl | rfl | rfl
    · exact hj.unique he ▸ hstraight
    · exact hk.unique he ▸ hcurved
    · exact .reverse hstraight ((reverseEdge?_iff hd hx hs hp hj).2 he)
    · exact .reverse hcurved ((reverseEdge?_iff hd hx hs hq hk).2 he)

/-- The mutex groups of two sidings share no edge. -/
theorem pairwise_tied (hd : r.Draws g (entries segments gap)) :
    (g.allTied ((segments.zipIdx.filter (·.1.siding)).map fun x => guard x.2)).Pairwise
      Disjoint := by
  unfold Graph.allTied
  rw [List.map_map, List.pairwise_map]
  refine ((pairwise_zipIdx segments).filter _).imp_of_mem ?_
  intro x y hx hy hxy
  obtain ⟨hx, hsx⟩ := List.mem_filter.1 hx
  obtain ⟨hy, hsy⟩ := List.mem_filter.1 hy
  refine Set.disjoint_left.2 fun e hex hey => hxy ?_
  obtain ⟨w, hw, hk⟩ := (mem_tied_iff hd hx hsx).1 hex
  obtain ⟨w', hw', hk'⟩ := (mem_tied_iff hd hy hsy).1 hey
  have hsrc := Spot.name_injective (hd.namesEdge_inj hk hk').1
  rw [← number_of_mem_guarded hw, hsrc, number_of_mem_guarded hw']

/-- Four edges are tied together in every siding. -/
theorem length_of_mem_tied_iff (hd : r.Draws g (entries segments gap)) (hx : x ∈ segments.zipIdx)
    (hs : x.1.siding = true) {members : EdgeSet} (hascending : members.Ascending)
    (hmem : ∀ e, e ∈ members ↔ e ∈ g.tied (guard x.2)) : members.length = 4 := by
  choose! edge hedge using fun w (hw : w ∈ guarded x.2) => exists_namesEdge hd hx hs hw
  have hnodup : ((guarded x.2).map edge).Nodup := by
    refine List.Nodup.map_on (fun w hw w' hw' heq => ?_) (by simp [guarded])
    obtain ⟨hsrc, hdest⟩ := hd.namesEdge_inj (hedge w hw) (heq ▸ hedge w' hw')
    exact Prod.ext (Spot.name_injective hsrc) (Spot.name_injective hdest)
  have hperm : members.Perm ((guarded x.2).map edge) := by
    refine (List.perm_ext_iff_of_nodup hascending.nodup hnodup).2 fun e => ?_
    rw [hmem, mem_tied_iff hd hx hs, List.mem_map]
    refine exists_congr fun w => and_congr_right fun hw => ?_
    constructor
    · exact (hedge w hw).unique
    · rintro rfl
      exact hedge w hw
  rw [hperm.length_eq, List.length_map]
  rfl

/-- Every siding has a declared group of four edges, and there is no other one. -/
theorem declared_groups (hd : r.Draws g (entries segments gap)) (hn : g.nodeCount ≤ nodeCeiling)
    {t : MutexTable} (h : (MutexTable.build g ((entries segments gap).filterMap LineRecord.mutex?)).result =
      .ok t) : t.declaredCount = sidingCount segments ∧
        ∀ group ∈ t.groups, group.declared = true → group.members.length = 4 := by
  rw [mutexes_entries] at h
  obtain ⟨firsts, free, hc⟩ := hd.wellFormed.components_of_build hn h
  have hsiding : ∀ {d}, d ∈ (segments.zipIdx.filter (·.1.siding)).map (fun x => guard x.2) →
      ∃ x ∈ segments.zipIdx, x.1.siding = true ∧ d = guard x.2 := by
    intro d hd
    obtain ⟨x, hx, rfl⟩ := List.mem_map.1 hd
    obtain ⟨hx, hs⟩ := List.mem_filter.1 hx
    exact ⟨x, hx, hs, rfl⟩
  obtain ⟨hcount, hgroups⟩ := hc.declared_of_disjoint (pairwise_tied hd) fun d hmem => by
    obtain ⟨x, hx, hs, rfl⟩ := hsiding hmem
    obtain ⟨k, hk⟩ := exists_namesEdge hd hx hs List.mem_cons_self
    exact ⟨k, (mem_tied_iff hd hx hs).2 ⟨_, List.mem_cons_self, hk⟩⟩
  refine ⟨?_, fun group hgroup hdeclared => ?_⟩
  · rw [hcount, List.length_map, ← length_sidings, sidings, List.length_zipIdx]
  · obtain ⟨hascending, d, hmem, hmembers⟩ := hgroups group hgroup hdeclared
    obtain ⟨x, hx, hs, rfl⟩ := hsiding hmem
    exact length_of_mem_tied_iff hd hx hs hascending hmembers

end TrackPlan.Example.Ring
