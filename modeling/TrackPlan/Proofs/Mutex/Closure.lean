import Mathlib.Data.Finset.Card
import Mathlib.Data.Finset.Range
import Mathlib.Data.List.Nodup
import Mathlib.Data.List.Perm.Subperm
import TrackPlan.Mutex.Closure
import TrackPlan.Proofs.Graph.Adjacency

/-!
# Closed sets of edges are least

`Graph.Closure g seed` is the least set of edges around a seed that obeys both rules, as an
inductive predicate. In a well-formed graph the expansion by rounds computes it (`mem_close_iff`);
numbers of no edge may be among the seed.

1. `mem_companions_iff` reads one round as the two rules.
2. `isClosed_iff`: a round that adds nothing has nothing to add.
3. `isClosed_closeWithin`: any other round adds an edge of the graph, so there are no more rounds
   than edges.
-/

namespace TrackPlan

/-! ## Sets as ascending lists -/

namespace EdgeSet

/-- An ascending list of edges. -/
def Ascending (s : EdgeSet) : Prop := s.Pairwise (· < ·)

theorem Ascending.nodup {s : EdgeSet} (h : s.Ascending) : s.Nodup := h.imp Nat.ne_of_lt

theorem ascending_union {s t : EdgeSet} (h : s.Ascending) : (union s t).Ascending :=
  pairwise_union h

/-- A set within another one that is no longer is all of it. -/
theorem Ascending.subset_of_length_le {s t : EdgeSet} (hs : s.Ascending) (h : s ⊆ t)
    (hlen : t.length ≤ s.length) : t ⊆ s :=
  ((List.subperm_of_subset hs.nodup h).perm_of_length_le hlen).symm.subset

end EdgeSet

namespace Graph

variable {g : Graph} {s seed : EdgeSet} {e f rounds : Nat}

/-! ## The two rules -/

/-- Two edges that leave the same branch. -/
def Siblings (g : Graph) (e f : Nat) : Prop :=
  ∃ x y, g.edge? e = some x ∧ g.edge? f = some y ∧ y.src = x.src ∧ g.isBranch x.src = true

/-- The least set of edges around a seed that has the reverse edge and the siblings of each of its
members. -/
inductive Closure (g : Graph) (seed : Nat → Prop) : Nat → Prop
  | seed {e : Nat} (h : seed e) : Closure g seed e
  | reverse {e f : Nat} (h : Closure g seed e) (hr : g.reverseEdge? e = some f) : Closure g seed f
  | sibling {e f : Nat} (h : Closure g seed e) (hs : g.Siblings e f) : Closure g seed f

theorem WellFormed.mem_siblings_iff (hg : g.WellFormed) {x : Edge} (he : g.edge? e = some x) :
    f ∈ g.siblings e ↔ ∃ y, g.edge? f = some y ∧ y.src = x.src := by
  unfold siblings
  rw [he]
  simp only [List.mem_map, hg.mem_outgoing_iff]
  constructor
  · intro h
    obtain ⟨y, ⟨hy, hsrc⟩, rfl⟩ := h
    exact ⟨y, hy, hsrc⟩
  · rintro ⟨y, hy, hsrc⟩
    obtain rfl := hg.edge_id hy
    exact ⟨y, ⟨hy, hsrc⟩, rfl⟩

/-- The companions of an edge are its reverse edge and its siblings. -/
theorem WellFormed.mem_companions_iff (hg : g.WellFormed) :
    f ∈ g.companions e ↔ g.reverseEdge? e = some f ∨ g.Siblings e f := by
  unfold companions Siblings
  rw [List.mem_append, Option.mem_toList]
  apply or_congr_right
  cases he : g.edge? e with
  | none => simp
  | some x =>
    dsimp only
    by_cases hb : g.isBranch x.src = true
    · rw [if_pos hb, hg.mem_siblings_iff he]
      simp [hb]
    · rw [if_neg hb]
      simp [hb]

theorem lt_of_edge? {x : Edge} (h : g.edge? e = some x) : e < g.edgeCount :=
  (Array.getElem?_eq_some_iff.1 h).1

theorem WellFormed.lt_of_edgeBetween? (hg : g.WellFormed) {a b : Nat}
    (h : g.edgeBetween? a b = some e) : e < g.edgeCount := by
  obtain ⟨x, hx, -, -⟩ := hg.edge_of_edgeBetween? h
  exact lt_of_edge? hx

theorem WellFormed.lt_of_reverseEdge? (hg : g.WellFormed) (h : g.reverseEdge? e = some f) :
    f < g.edgeCount := by
  unfold reverseEdge? at h
  simp only [Option.bind_eq_bind, Option.bind_eq_some_iff] at h
  obtain ⟨x, -, a, -, b, -, hf⟩ := h
  exact hg.lt_of_edgeBetween? hf

/-- The rules lead from edges of the graph to edges of the graph. -/
theorem WellFormed.lt_of_mem_companions (hg : g.WellFormed) (h : f ∈ g.companions e) :
    f < g.edgeCount := by
  rcases hg.mem_companions_iff.1 h with hr | ⟨x, y, -, hy, -⟩
  · exact hg.lt_of_reverseEdge? hr
  · exact lt_of_edge? hy

/-! ## One round -/

theorem subset_expand : s ⊆ g.expand s := fun _ he => mem_expand.2 (Or.inl he)

/-- A round that adds nothing has nothing to add. -/
theorem isClosed_iff (hs : s.Ascending) :
    g.isClosed s = true ↔ ∀ e ∈ s, ∀ f ∈ g.companions e, f ∈ s := by
  unfold isClosed
  rw [beq_iff_eq]
  constructor
  · intro h e he f hf
    exact hs.subset_of_length_le subset_expand (Nat.le_of_eq h) (mem_expand.2 (Or.inr ⟨e, he, hf⟩))
  · intro h
    have hback : g.expand s ⊆ s := by
      intro f hf
      rcases mem_expand.1 hf with hf | ⟨e, he, hf⟩
      · exact hf
      · exact h e he f hf
    refine Nat.le_antisymm ?_ ?_
    · exact (List.subperm_of_subset (EdgeSet.ascending_union hs).nodup hback).length_le
    · exact (List.subperm_of_subset hs.nodup subset_expand).length_le

/-- How many edges of the graph are not in the set. -/
def missing (g : Graph) (s : EdgeSet) : Nat := {e ∈ Finset.range g.edgeCount | e ∉ s}.card

theorem missing_le : g.missing s ≤ g.edgeCount :=
  (Finset.card_filter_le _ _).trans_eq (Finset.card_range _)

/-- A round that is not the last adds an edge of the graph. -/
theorem WellFormed.missing_expand_lt (hg : g.WellFormed) (hs : s.Ascending)
    (h : ¬ g.isClosed s = true) : g.missing (g.expand s) < g.missing s := by
  rw [isClosed_iff hs] at h
  push Not at h
  obtain ⟨e, he, f, hf, hnew⟩ := h
  refine Finset.card_lt_card ((Finset.ssubset_iff_of_subset ?_).2 ⟨f, ?_, ?_⟩)
  · exact Finset.monotone_filter_right _ fun _ _ hx hmem => hx (subset_expand hmem)
  · rw [Finset.mem_filter, Finset.mem_range]
    exact ⟨hg.lt_of_mem_companions hf, hnew⟩
  · rw [Finset.mem_filter, not_and, not_not]
    exact fun _ => mem_expand.2 (Or.inr ⟨e, he, hf⟩)

/-! ## All rounds -/

theorem subset_closeWithin : s ⊆ g.closeWithin rounds s := by
  induction rounds generalizing s with
  | zero => exact fun _ he => he
  | succ rounds ih =>
    unfold closeWithin
    split
    · exact fun _ he => he
    · exact fun _ he => ih (subset_expand he)

theorem ascending_closeWithin (hs : s.Ascending) : (g.closeWithin rounds s).Ascending := by
  induction rounds generalizing s with
  | zero => exact hs
  | succ rounds ih =>
    unfold closeWithin
    split
    · exact hs
    · exact ih (EdgeSet.ascending_union hs)

/-- The rounds add no edge that the rules do not demand. -/
theorem WellFormed.closure_of_mem_closeWithin (hg : g.WellFormed) {seed : Nat → Prop}
    (hs : ∀ e ∈ s, g.Closure seed e) : ∀ e ∈ g.closeWithin rounds s, g.Closure seed e := by
  induction rounds generalizing s with
  | zero => exact hs
  | succ rounds ih =>
    unfold closeWithin
    split
    · exact hs
    · apply ih
      intro f hf
      rcases mem_expand.1 hf with hf | ⟨e, he, hf⟩
      · exact hs f hf
      · rcases hg.mem_companions_iff.1 hf with hr | hsib
        · exact .reverse (hs e he) hr
        · exact .sibling (hs e he) hsib

/-- The rounds suffice: there are no more rounds than edges that are still missing. -/
theorem WellFormed.isClosed_closeWithin (hg : g.WellFormed) (hs : s.Ascending)
    (hrounds : g.missing s ≤ rounds) : g.isClosed (g.closeWithin rounds s) = true := by
  induction rounds generalizing s with
  | zero =>
    -- all edges are there already
    by_contra hnot
    have := hg.missing_expand_lt hs hnot
    omega
  | succ rounds ih =>
    unfold Graph.closeWithin
    split
    · assumption
    · next hnot =>
      have := hg.missing_expand_lt hs hnot
      exact ih (EdgeSet.ascending_union hs) (by omega)

/-- Closing a set gives the least closed set around it. -/
theorem WellFormed.mem_close_iff (hg : g.WellFormed) (hs : s.Ascending) :
    e ∈ g.close s ↔ g.Closure (· ∈ s) e := by
  refine ⟨hg.closure_of_mem_closeWithin (fun _ => .seed) e, fun he => ?_⟩
  have hclosed := (isClosed_iff (ascending_closeWithin hs)).1
    (hg.isClosed_closeWithin hs missing_le)
  induction he with
  | seed he => exact subset_closeWithin he
  | reverse _ hr ih => exact hclosed _ ih _ (hg.mem_companions_iff.2 (Or.inl hr))
  | sibling _ hs ih => exact hclosed _ ih _ (hg.mem_companions_iff.2 (Or.inr hs))

end Graph

end TrackPlan
