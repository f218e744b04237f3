import TrackPlan.Proofs.Calibration
import TrackPlan.Proofs.Relabeling.Linking

/-!
# Relabeled graphs are finished alike

What comes after linking asks a graph by position, and takes names from it only to say what is
wrong. So a relabeled graph passes the checks that the graph passes (`WellFormed.check_relabel`),
and has its mutex groups (`build_relabel`) and its calibration loop (`extract_relabel`).
-/

namespace TrackPlan

open Relabeling

variable {ρ : Relabeling} {g : Graph}

namespace Graph

/-! ## Checks -/

/-- What is found first, where the same is found at each element. -/
theorem findSome?_relabel {α β : Type} {m : α → β} {check : α → Option CompileError}
    {check' : β → Option CompileError} {xs : List α}
    (h : ∀ x ∈ xs, check' (m x) = (check x).map (CompileError.relabel ρ)) :
    (xs.map m).findSome? check' = (xs.findSome? check).map (CompileError.relabel ρ) := by
  induction xs with
  | nil => rfl
  | cons x rest ih =>
    obtain ⟨hx, hrest⟩ := List.forall_mem_cons.1 h
    rw [List.map_cons, List.findSome?_cons, List.findSome?_cons, hx, ih hrest]
    cases check x <;> rfl

theorem firstFailure_relabel {α β : Type} {m : α → β} {check : α → Option CompileError}
    {check' : β → Option CompileError} {xs : List α}
    (h : ∀ x ∈ xs, check' (m x) = (check x).map (CompileError.relabel ρ)) :
    firstFailure check' (xs.map m) = ρ.result id (firstFailure check xs) := by
  unfold firstFailure
  rw [findSome?_relabel h]
  cases xs.findSome? check <;> rfl

/-- The name of a node that may be missing. -/
theorem getD_nameOf_relabel (hρ : ρ.Faithful) {i? : Option Nat}
    (h : ∀ i, i? = some i → i < g.nodeCount) :
    (i?.map (g.relabel ρ).nameOf).getD "" = ρ.name ((i?.map g.nameOf).getD "") := by
  cases i? with
  | none => exact hρ.name_empty.symm
  | some i => exact nameOf_relabel (h i rfl)

theorem WellFormed.lt_of_reverse? (hg : g.WellFormed) {i j : Nat} (h : g.reverse? i = some j) :
    j < g.nodeCount := by
  obtain ⟨n, hn, rfl⟩ := Option.map_eq_some_iff.1 h
  exact hg.reverse_lt hn

theorem WellFormed.checkReverseSymmetry_relabel (hg : g.WellFormed) (hρ : ρ.Faithful) :
    (g.relabel ρ).checkReverseSymmetry = ρ.result id g.checkReverseSymmetry := by
  unfold checkReverseSymmetry
  rw [toList_nodes_relabel]
  refine firstFailure_relabel fun n _ => ?_
  show (if (g.relabel ρ).reverse? n.reverse = some n.id then none else some
    (CompileError.asymmetricReverse (ρ.name n.name)
      ((((g.relabel ρ).reverse? n.reverse).map (g.relabel ρ).nameOf).getD ""))) = _
  simp only [reverse?_relabel]
  rw [getD_nameOf_relabel hρ fun i => hg.lt_of_reverse? (i := n.reverse)]
  by_cases hback : g.reverse? n.reverse = some n.id
  · rw [if_pos hback, if_pos hback]
    rfl
  · rw [if_neg hback, if_neg hback]
    rfl

theorem WellFormed.checkEdgeOwnership_relabel (hg : g.WellFormed) (hρ : ρ.Faithful) :
    (g.relabel ρ).checkEdgeOwnership = ρ.result id g.checkEdgeOwnership := by
  unfold checkEdgeOwnership
  rw [toList_nodes_relabel]
  refine firstFailure_relabel fun n _ => ?_
  dsimp only [Node.relabel]
  conv_lhs => rw [← List.map_id n.edges]
  refine findSome?_relabel fun edge _ => ?_
  have hsrc : ∀ i, (g.edge? edge).map Edge.src = some i → i < g.nodeCount := by
    intro i hi
    obtain ⟨e, he, rfl⟩ := Option.map_eq_some_iff.1 hi
    exact hg.src_lt he
  rw [id_eq, edge?_relabel, getD_nameOf_relabel hρ hsrc]
  by_cases howned : (g.edge? edge).map Edge.src = some n.id
  · rw [if_pos howned, if_pos howned]
    rfl
  · rw [if_neg howned, if_neg howned]
    rfl

theorem WellFormed.checkReversibleEdges_relabel (hg : g.WellFormed) :
    (g.relabel ρ).checkReversibleEdges = ρ.result id g.checkReversibleEdges := by
  have hreverse : ∀ i < g.nodeCount, (g.reverse? i).getD i < g.nodeCount := by
    intro i hi
    cases h : g.reverse? i with
    | none => exact hi
    | some j => exact hg.lt_of_reverse? h
  unfold checkReversibleEdges
  rw [edges_relabel]
  conv_lhs => rw [← List.map_id g.edges.toList]
  refine firstFailure_relabel fun e he => ?_
  obtain ⟨hsrc, hdest⟩ := hg.ends_lt e he
  simp only [id_eq, reverseEdge?_relabel, reverse?_relabel]
  cases g.reverseEdge? e.id with
  | some r => rfl
  | none =>
    dsimp only
    rw [nameOf_relabel hsrc, nameOf_relabel hdest, nameOf_relabel (hreverse _ hdest),
      nameOf_relabel (hreverse _ hsrc)]
    rfl

/-- A relabeled graph passes the checks that the graph passes. -/
theorem WellFormed.check_relabel (hg : g.WellFormed) (hρ : ρ.Faithful) :
    (g.relabel ρ).check = ρ.result id g.check := by
  unfold check
  refine result_bind (hg.checkReverseSymmetry_relabel hρ) fun _ _ => ?_
  refine result_bind (hg.checkEdgeOwnership_relabel hρ) fun _ _ => ?_
  exact hg.checkReversibleEdges_relabel

/-! ## Mutex groups -/

theorem companions_relabel (edge : Nat) :
    (g.relabel ρ).companions edge = g.companions edge := by
  unfold companions
  simp only [edge?_relabel, isBranch_relabel, siblings_relabel, reverseEdge?_relabel]

theorem expand_relabel (s : EdgeSet) : (g.relabel ρ).expand s = g.expand s := by
  unfold expand
  rw [funext (companions_relabel (ρ := ρ) (g := g))]

theorem closeWithin_relabel (rounds : Nat) (s : EdgeSet) :
    (g.relabel ρ).closeWithin rounds s = g.closeWithin rounds s := by
  induction rounds generalizing s with
  | zero => rfl
  | succ rounds ih =>
    unfold closeWithin isClosed
    rw [expand_relabel, ih]

theorem close_relabel (s : EdgeSet) : (g.relabel ρ).close s = g.close s :=
  closeWithin_relabel g.edgeCount s

theorem mutexSeed_relabel (hρ : ρ.Faithful) (d : MutexDecl) :
    (g.relabel ρ).mutexSeed (d.relabel ρ) = ρ.result id (g.mutexSeed d) := by
  unfold mutexSeed
  have hedges : (d.relabel ρ).edges.mapM (fun e => (g.relabel ρ).edgeFromNames e.1 e.2
      (d.relabel ρ).line) = ρ.result (List.map id)
        (d.edges.mapM fun e => g.edgeFromNames e.1 e.2 d.line) :=
    result_mapM fun e _ => edgeFromNames_relabel hρ e.1 e.2 d.line
  refine result_map hedges fun edges => ?_
  rw [List.map_id]
  rfl

theorem mutexSlots_relabel (hρ : ρ.Faithful) (m : MutexSlots) (decls : List MutexDecl) :
    (g.relabel ρ).mutexSlots m (decls.map (MutexDecl.relabel ρ)) =
      ρ.report id (g.mutexSlots m decls) := by
  induction decls generalizing m with
  | nil => rfl
  | cons d rest ih =>
    rw [List.map_cons, mutexSlots, mutexSlots]
    refine report_bind (report_ofExcept (mutexSeed_relabel hρ d)) fun seed _ => ?_
    have hwarn : overlapWarnings (d.relabel ρ).line (m.overlapping (g.close seed)).length =
        (overlapWarnings d.line (m.overlapping (g.close seed)).length).map
          (Warning.relabel ρ) := by
      unfold overlapWarnings
      split <;> rfl
    rw [id_eq, close_relabel]
    exact report_bind (report_warn hwarn) fun _ _ => ih _

end Graph

theorem MutexTable.build_relabel (hρ : ρ.Faithful) (decls : List MutexDecl) :
    build (g.relabel ρ) (decls.map (MutexDecl.relabel ρ)) = ρ.report id (build g decls) := by
  unfold build
  exact report_map (Graph.mutexSlots_relabel hρ {} decls) fun _ => rfl

/-! ## The loop -/

namespace Calibration

theorem openSteps_relabel (hρ : ρ.Faithful) (steps : List LoopStep) :
    openSteps (steps.map (LoopStep.relabel ρ)) = (openSteps steps).map (LoopStep.relabel ρ) := by
  have hnode : ∀ s? : Option LoopStep, (s?.map (LoopStep.relabel ρ)).map LoopStep.node =
      (s?.map LoopStep.node).map ρ.name := by
    intro s?
    rw [Option.map_map, Option.map_map]
    rfl
  unfold openSteps
  simp only [List.length_map, List.head?_map, List.getLast?_map, hnode,
    (Option.map_injective hρ.name_inj).eq_iff]
  split
  · rw [List.map_dropLast]
  · rfl

theorem locate_relabel (hρ : ρ.Faithful) (s : LoopStep) :
    locate (g.relabel ρ) (s.relabel ρ) = ρ.result id (locate g s) := by
  have hnode : (s.relabel ρ).node = ρ.name s.node := rfl
  unfold locate
  rw [hnode, Graph.nodeId?_relabel hρ]
  cases g.nodeId? s.node <;> rfl

theorem edgeOn_relabel {line src dest : Nat} (hsrc : src < g.nodeCount)
    (hdest : dest < g.nodeCount) :
    edgeOn (g.relabel ρ) (ρ.line line) src dest = ρ.result id (edgeOn g line src dest) := by
  unfold edgeOn
  rw [Graph.edgeBetween?_relabel, Graph.nameOf_relabel hsrc, Graph.nameOf_relabel hdest]
  cases g.edgeBetween? src dest <;> rfl

theorem edgesAround_relabel {lines nodes : List Nat} (h : ∀ i ∈ nodes, i < g.nodeCount) :
    edgesAround (g.relabel ρ) (lines.map ρ.line) nodes =
      ρ.result id (edgesAround g lines nodes) := by
  have hrotate : ∀ i ∈ nodes.rotateLeft, i < g.nodeCount := fun i hi =>
    h i (List.mem_rotate.1 (rotateLeft_eq nodes ▸ hi))
  have hzip : (lines.map ρ.line).zip (nodes.zip nodes.rotateLeft) =
      (lines.zip (nodes.zip nodes.rotateLeft)).map fun p => (ρ.line p.1, p.2) :=
    List.zip_map_left
  have hedges : ((lines.zip (nodes.zip nodes.rotateLeft)).map fun p => (ρ.line p.1, p.2)).mapM
      (fun p => edgeOn (g.relabel ρ) p.1 p.2.1 p.2.2) = ρ.result (List.map id)
        ((lines.zip (nodes.zip nodes.rotateLeft)).mapM fun p => edgeOn g p.1 p.2.1 p.2.2) :=
    result_mapM fun p hp => by
      have hmem := List.of_mem_zip (List.of_mem_zip hp).2
      exact edgeOn_relabel (h _ hmem.1) (hrotate _ hmem.2)
  unfold edgesAround
  rw [hzip]
  rw [List.map_id_fun] at hedges
  exact hedges

theorem branchesOf_relabel (lap : List (Nat × Nat)) :
    branchesOf (g.relabel ρ) lap = branchesOf g lap := by
  unfold branchesOf
  simp only [Graph.edge?_relabel, Graph.isBranch_relabel]

theorem measureLap_relabel (span : Nat) (lap : List (Nat × Nat)) :
    measureLap (g.relabel ρ) span lap = measureLap g span lap := by
  have hlength : ∀ edge, (g.relabel ρ).edgeLength edge = g.edgeLength edge := fun _ => rfl
  induction lap generalizing span with
  | nil => rfl
  | cons p rest ih =>
    obtain ⟨node, edge⟩ := p
    unfold measureLap
    rw [Graph.isSensor_relabel, hlength, ih, ih]

/-- A relabeled graph has the same loop. -/
theorem extract_relabel (hg : g.WellFormed) (hρ : ρ.Faithful) (steps : List LoopStep) :
    extract (g.relabel ρ) (steps.map (LoopStep.relabel ρ)) = ρ.result id (extract g steps) := by
  unfold extract
  rw [openSteps_relabel hρ]
  cases openSteps steps with
  | nil => rfl
  | cons first rest =>
    have hlocate : ((first :: rest).map (LoopStep.relabel ρ)).mapM (locate (g.relabel ρ)) =
        ρ.result (List.map id) ((first :: rest).mapM (locate g)) :=
      result_mapM fun s _ => locate_relabel hρ s
    have hlines : ((first :: rest).map (LoopStep.relabel ρ)).map LoopStep.line =
        ((first :: rest).map LoopStep.line).map ρ.line := by
      rw [List.map_map, List.map_map]
      rfl
    refine result_bind hlocate fun nodes hnodes => ?_
    -- the nodes of the loop are nodes of the graph
    have hlt : ∀ i ∈ nodes, i < g.nodeCount := by
      intro i hi
      obtain ⟨s, -, hs⟩ := (mem_of_mapM_eq_ok hnodes).1 hi
      obtain ⟨n, hn, -⟩ := hg.nodeId?_eq_some_iff.1 (locate_eq_ok.1 hs)
      exact (Array.getElem?_eq_some_iff.1 hn).1
    have hedges : edgesAround (g.relabel ρ)
        (((first :: rest).map (LoopStep.relabel ρ)).map LoopStep.line) nodes =
          ρ.result id (edgesAround g ((first :: rest).map LoopStep.line) nodes) := by
      rw [hlines]
      exact edgesAround_relabel hlt
    rw [List.map_id]
    refine result_bind hedges fun edges _ => ?_
    dsimp only
    rw [id_eq, measureLap_relabel, branchesOf_relabel]
    split <;> rfl

end Calibration

end TrackPlan
