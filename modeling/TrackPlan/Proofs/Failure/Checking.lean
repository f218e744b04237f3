import TrackPlan.Proofs.Graph.ReverseEdge

/-!
# Where the checks fail

In a well-formed graph whose reverses come in pairs, only one of the checks can fail: the one for
edges that cannot be travelled the other way. It names the first such edge, and the two nodes
between which its reverse edge would have to be (`WellFormed.check_eq_error_iff`).
-/

namespace TrackPlan.Graph

variable {g : Graph} {k : Nat} {edge : Edge} {err : CompileError}

/-- A check fails at the first element that it fails for. -/
theorem firstFailure_eq_error_iff {α : Type} {check : α → Option CompileError} {xs : List α} :
    firstFailure check xs = .error err ↔
      ∃ (k : Nat) (x : α), xs[k]? = some x ∧ check x = some err ∧
        ∀ j < k, ∀ y, xs[j]? = some y → check y = none := by
  have hfind : firstFailure check xs = .error err ↔ xs.findSome? check = some err := by
    unfold firstFailure
    cases xs.findSome? check <;> simp
  rw [hfind, List.findSome?_eq_some_iff]
  constructor
  · rintro ⟨before, x, after, rfl, hx, hbefore⟩
    refine ⟨before.length, x, by simp, hx, fun j hj y hy => hbefore y ?_⟩
    rw [List.getElem?_append_left hj] at hy
    exact List.mem_of_getElem? hy
  · rintro ⟨k, x, hk, hx, hbefore⟩
    obtain ⟨hlt, rfl⟩ := List.getElem?_eq_some_iff.1 hk
    refine ⟨xs.take k, xs[k], xs.drop (k + 1), ?_, hx, fun y hy => ?_⟩
    · rw [← List.drop_eq_getElem_cons hlt, List.take_append_drop]
    · obtain ⟨j, hj, rfl⟩ := List.mem_take_iff_getElem.1 hy
      rw [Nat.lt_min] at hj
      exact hbefore j hj.1 _ (List.getElem?_eq_getElem hj.2)

/-- The error for an edge without a reverse edge. -/
def stranded (g : Graph) (edge : Edge) : CompileError :=
  .strandedEdge (g.nameOf edge.src) (g.nameOf edge.dest)
    (g.nameOf ((g.reverse? edge.dest).getD edge.dest))
    (g.nameOf ((g.reverse? edge.src).getD edge.src))

theorem stranded_eq {a b : Nat} (hdest : g.reverse? edge.dest = some a)
    (hsrc : g.reverse? edge.src = some b) : g.stranded edge =
      .strandedEdge (g.nameOf edge.src) (g.nameOf edge.dest) (g.nameOf a) (g.nameOf b) := by
  unfold stranded
  rw [hdest, hsrc, Option.getD_some, Option.getD_some]

theorem WellFormed.checkReversibleEdges_eq_error_iff (hg : g.WellFormed) :
    g.checkReversibleEdges = .error err ↔ ∃ k edge, g.edge? k = some edge ∧
      g.reverseEdge? k = none ∧ (∀ j < k, ∃ r, g.reverseEdge? j = some r) ∧
        err = g.stranded edge := by
  unfold checkReversibleEdges
  rw [firstFailure_eq_error_iff]
  simp only [Array.getElem?_toList]
  constructor
  · rintro ⟨k, edge, hk, he, hbefore⟩
    have hk : g.edge? k = some edge := hk
    rw [hg.edge_id hk] at he
    cases hr : g.reverseEdge? k with
    | some r =>
      simp only [hr] at he
      cases he
    | none =>
      simp only [hr] at he
      refine ⟨k, edge, hk, hr, fun j hj => ?_, (Option.some.inj he).symm⟩
      have hlt : j < g.edgeCount := Nat.lt_trans hj (Array.getElem?_eq_some_iff.1 hk).1
      have hj' : g.edge? j = some g.edges[j] := Array.getElem?_eq_getElem hlt
      have hpassed := hbefore j hj _ hj'
      rw [hg.edge_id hj'] at hpassed
      cases hrj : g.reverseEdge? j with
      | some r => exact ⟨r, rfl⟩
      | none =>
        simp only [hrj] at hpassed
        cases hpassed
  · rintro ⟨k, edge, hk, hnone, hbefore, rfl⟩
    refine ⟨k, edge, hk, ?_, fun j hj f hf => ?_⟩
    · rw [hg.edge_id hk, hnone]
      rfl
    · obtain ⟨r, hr⟩ := hbefore j hj
      rw [hg.edge_id hf, hr]

/-- What the checks say of a well-formed graph whose reverses come in pairs, if they fail. -/
theorem WellFormed.check_eq_error_iff (hg : g.WellFormed) (hs : g.Symmetric) :
    g.check = .error err ↔ ∃ k edge a b, g.edge? k = some edge ∧ g.reverseEdge? k = none ∧
      (∀ j < k, ∃ r, g.reverseEdge? j = some r) ∧
      g.reverse? edge.dest = some a ∧ g.reverse? edge.src = some b ∧ g.edgeBetween? a b = none ∧
        err = .strandedEdge (g.nameOf edge.src) (g.nameOf edge.dest) (g.nameOf a)
          (g.nameOf b) := by
  have hcheck : g.check = .error err ↔ g.checkReversibleEdges = .error err := by
    unfold check
    rw [hg.checkReverseSymmetry_eq_ok_iff.2 hs, hg.checkEdgeOwnership_eq_ok]
    rfl
  rw [hcheck, hg.checkReversibleEdges_eq_error_iff]
  constructor
  · rintro ⟨k, edge, hk, hnone, hbefore, rfl⟩
    obtain ⟨n, hn⟩ := exists_node (hg.src_lt hk)
    obtain ⟨m, hm⟩ := exists_node (hg.dest_lt hk)
    have hsrc : g.reverse? edge.src = some n.reverse := by rw [reverse?, hn, Option.map_some]
    have hdest : g.reverse? edge.dest = some m.reverse := by rw [reverse?, hm, Option.map_some]
    refine ⟨k, edge, m.reverse, n.reverse, hk, hnone, hbefore, hdest, hsrc, ?_,
      stranded_eq hdest hsrc⟩
    rw [← reverseEdge?_eq_edgeBetween? hk hsrc hdest, hnone]
  · rintro ⟨k, edge, a, b, hk, hnone, hbefore, hdest, hsrc, -, rfl⟩
    exact ⟨k, edge, hk, hnone, hbefore, (stranded_eq hdest hsrc).symm⟩

end TrackPlan.Graph
