import TrackPlan.Proofs.Calibration.Spans
import TrackPlan.Proofs.Mutex.Components

/-!
# The loop by name

The nodes of a loop are those that its steps name (`forall₂_nodes`), and its edges lead from one
name to the next, the last to the first (`forall₂_edges`). Where no node is passed twice, the
branches are those on the way, with the way that is taken there (`branchesOf_eq_filterMap`).
-/

namespace TrackPlan.Calibration

variable {g : Graph} {steps : List LoopStep} {l : Loop} {lap : List (Nat × Nat)} {node : Nat}
  {curved : Bool} {bs : List LoopBranch}

/-- The nodes of the loop, one for each step. -/
theorem forall₂_nodes (h : extract g steps = .ok (some l)) :
    List.Forall₂ (fun a i => g.nodeId? a = some i) (openRound (steps.map LoopStep.node))
      l.nodes := by
  obtain ⟨-, hnodes, -⟩ := extract_eq_ok_some_iff.1 h
  rw [mapM_eq_ok_iff] at hnodes
  simp only [locate_eq_ok] at hnodes
  rw [← map_openSteps, List.forall₂_map_left_iff]
  exact hnodes

/-- The edges of the loop, one from each name to the next. -/
theorem forall₂_edges (h : extract g steps = .ok (some l)) :
    List.Forall₂ (fun p k => g.NamesEdge p.1 p.2 k)
      ((openRound (steps.map LoopStep.node)).zip
        ((openRound (steps.map LoopStep.node)).rotate 1)) l.edges := by
  obtain ⟨-, hlocated, hedges, -⟩ := extract_eq_ok_some_iff.1 h
  have hnodes := forall₂_nodes h
  refine forall₂_trans (forall₂_zip_zip hnodes (forall₂_rotate_one hnodes))
    ((edgesAround_eq_ok_iff (length_lines hlocated)).1 hedges) ?_
  rintro p q k ⟨hp, hp'⟩ hk
  exact ⟨q.1, q.2, hp, hp', hk⟩

theorem exists_edge_of_mem (hg : g.WellFormed) (h : extract g steps = .ok (some l)) :
    ∀ p ∈ l.nodes.zip l.edges, ∃ e, g.edge? p.2 = some e := by
  obtain ⟨-, -, hedges, -⟩ := extract_eq_ok_some_iff.1 h
  intro p hp
  obtain ⟨q, -, hq⟩ := (mem_of_mapM_eq_ok hedges).1 (List.of_mem_zip hp).2
  obtain ⟨e, he, -⟩ := hg.edge_of_edgeBetween? (edgeOn_eq_ok.1 hq)
  exact ⟨e, he⟩

/-! ## Branches -/

/-- A branch that is not listed is noted last. -/
theorem noteBranch_of_notMem (h : node ∉ bs.map LoopBranch.node) :
    noteBranch node curved bs = bs ++ [⟨node, curved⟩] := by
  induction bs with
  | nil => rfl
  | cons b rest ih =>
    rw [List.map_cons, List.mem_cons, not_or] at h
    unfold noteBranch
    rw [if_neg (Ne.symm h.1), ih h.2, List.cons_append]

/-- The way taken at a step of a lap, if it is at a branch. -/
def turn? (g : Graph) (p : Nat × Nat) : Option LoopBranch :=
  if g.isBranch p.1 then (g.edge? p.2).map fun e => ⟨p.1, e.isCurved⟩ else none

/-- Where no node is passed twice, every turn counts. -/
theorem branchesOf_eq_filterMap (h : ∀ p ∈ lap, ∃ e, g.edge? p.2 = some e)
    (hnodup : (lap.map Prod.fst).Nodup) : branchesOf g lap = lap.filterMap (turn? g) := by
  induction lap using List.reverseRecOn with
  | nil => rfl
  | append_singleton rest a ih =>
    rw [List.forall_mem_append] at h
    rw [List.map_append, List.map_singleton, List.nodup_append'] at hnodup
    obtain ⟨hrest, -, hnew⟩ := hnodup
    obtain ⟨e, he⟩ := h.2 a (List.mem_singleton_self a)
    have hlisted : a.1 ∉ (branchesOf g rest).map LoopBranch.node := by
      rw [map_node_branchesOf h.1, List.mem_eraseDups]
      exact fun hmem => hnew (List.mem_of_mem_filter hmem) (List.mem_singleton_self a.1)
    rw [branchesOf_concat he, List.filterMap_append, ← ih h.1 hrest]
    by_cases hb : g.isBranch a.1 = true
    · have hturn : turn? g a = some ⟨a.1, e.isCurved⟩ := by
        unfold turn?
        rw [if_pos hb, he, Option.map_some]
      rw [if_pos hb, noteBranch_of_notMem hlisted, List.filterMap_cons_some hturn,
        List.filterMap_nil]
    · have hturn : turn? g a = none := if_neg hb
      rw [if_neg hb, List.filterMap_cons_none hturn, List.filterMap_nil, List.append_nil]

end TrackPlan.Calibration
