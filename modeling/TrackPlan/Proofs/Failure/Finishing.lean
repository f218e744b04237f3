import TrackPlan.Proofs.Acceptance

/-!
# Where mutex groups and the loop fail

A mutex record fails at a pair that names no edge (`Draws.build_eq_error`). The loop fails at a step
that names no node or has no edge to the next one, or it has no sensor (`Draws.extract_eq_error`).
-/

namespace TrackPlan

namespace Graph

variable {g : Graph} {src dest : String} {line : Nat} {decls : List MutexDecl} {e : CompileError}

theorem edgeFromNames_eq_error (h : g.edgeFromNames src dest line = .error e) :
    (∀ k, ¬ g.NamesEdge src dest k) ∧ e = .unknownEdge line src dest := by
  constructor
  · intro k hk
    rw [edgeFromNames_eq_ok.2 hk] at h
    cases h
  · unfold edgeFromNames at h
    dsimp only at h
    split at h
    · cases h
    · cases h
      rfl

theorem exists_of_mutexSlots_eq_error {m : MutexSlots}
    (h : (g.mutexSlots m decls).result = .error e) : ∃ d ∈ decls, g.mutexSeed d = .error e := by
  induction decls generalizing m with
  | nil => cases h
  | cons d rest ih =>
    unfold mutexSlots at h
    simp only [Report.result_bind_eq_error_iff, Report.result_ofExcept] at h
    rcases h with h | ⟨s, -, h | ⟨⟨⟩, -, h⟩⟩
    · exact ⟨d, List.mem_cons_self, h⟩
    · cases h
    · obtain ⟨d', hd', he⟩ := ih h
      exact ⟨d', List.mem_cons_of_mem d hd', he⟩

/-- A mutex table is not built because of a pair that names no edge. -/
theorem exists_of_build_eq_error (h : (MutexTable.build g decls).result = .error e) :
    ∃ d ∈ decls, ∃ p ∈ d.edges, (∀ k, ¬ g.NamesEdge p.1 p.2 k) ∧
      e = .unknownEdge d.line p.1 p.2 := by
  unfold MutexTable.build at h
  obtain ⟨d, hd, hseed⟩ :=
    exists_of_mutexSlots_eq_error (Report.result_map_eq_error_iff.1 h)
  obtain ⟨p, hp, hedge⟩ := exists_of_mapM_eq_error (map_eq_error_iff.1 hseed)
  exact ⟨d, hd, p, hp, edgeFromNames_eq_error hedge⟩

end Graph

namespace Calibration

variable {g : Graph} {steps : List LoopStep} {s : LoopStep} {nodes : List Nat} {line i j : Nat}
  {e : CompileError}

theorem locate_eq_error (h : locate g s = .error e) :
    g.nodeId? s.node = none ∧ e = .unknownName s.line s.node := by
  unfold locate at h
  split at h
  · cases h
  · next hnone =>
    cases h
    exact ⟨hnone, rfl⟩

theorem edgeOn_eq_error (h : edgeOn g line i j = .error e) : g.edgeBetween? i j = none ∧
    e = .invalidLoop line (.gap (g.nameOf i) (g.nameOf j)) := by
  unfold edgeOn at h
  split at h
  · cases h
  · next hnone =>
    cases h
    exact ⟨hnone, rfl⟩

theorem openSteps_subset (steps : List LoopStep) : openSteps steps ⊆ steps := by
  unfold openSteps
  split
  · exact List.dropLast_subset steps
  · exact List.Subset.refl steps

/-- The line on which a pair of neighbours is looked up is that of the step to the first of them. -/
theorem exists_step_of_mem_zip (hnodes : steps.mapM (locate g) = .ok nodes)
    (h : (line, i, j) ∈ (steps.map LoopStep.line).zip (nodes.zip nodes.rotateLeft)) :
    ∃ s ∈ steps, s.line = line ∧ g.nodeId? s.node = some i ∧ j ∈ nodes := by
  obtain ⟨k, hk⟩ := List.mem_iff_getElem?.1 h
  obtain ⟨hline, hpair⟩ := List.getElem?_zip_eq_some.1 hk
  obtain ⟨hi, hj⟩ := List.getElem?_zip_eq_some.1 hpair
  rw [List.getElem?_map, Option.map_eq_some_iff] at hline
  obtain ⟨s, hs, rfl⟩ := hline
  obtain ⟨hks, rfl⟩ := List.getElem?_eq_some_iff.1 hs
  obtain ⟨hkn, rfl⟩ := List.getElem?_eq_some_iff.1 hi
  have hlocate := (List.forall₂_iff_get.1 (mapM_eq_ok_iff.1 hnodes)).2 k hks hkn
  have hj := List.mem_of_getElem? hj
  rw [rotateLeft_eq, List.mem_rotate] at hj
  exact ⟨_, List.getElem_mem hks, rfl, locate_eq_ok.1 hlocate, hj⟩

/-- The loop fails at a step that names no node, at a gap, or because it has no sensor. -/
theorem extract_eq_error (h : extract g steps = .error e) : ∃ s ∈ steps,
    (g.nodeId? s.node = none ∧ e = .unknownName s.line s.node) ∨
    (∃ s' ∈ steps, ∃ i j, g.nodeId? s.node = some i ∧ g.nodeId? s'.node = some j ∧
      g.edgeBetween? i j = none ∧ e = .invalidLoop s.line (.gap (g.nameOf i) (g.nameOf j))) ∨
    (∀ s' ∈ openSteps steps, ∀ i, g.nodeId? s'.node = some i → ¬ g.isSensor i = true) ∧
      e = .invalidLoop s.line .noSensor := by
  have hsub := openSteps_subset steps
  unfold extract at h
  split at h
  · cases h
  · next first rest hopen =>
    rw [hopen] at hsub
    rcases bind_eq_error_iff.1 h with h | ⟨nodes, hnodes, h⟩
    · obtain ⟨s, hs, hlocate⟩ := exists_of_mapM_eq_error h
      exact ⟨s, hsub hs, Or.inl (locate_eq_error hlocate)⟩
    rcases bind_eq_error_iff.1 h with h | ⟨edges, hedges, h⟩
    · obtain ⟨⟨line, i, j⟩, hmem, hedge⟩ := exists_of_mapM_eq_error h
      obtain ⟨s, hs, rfl, hi, hj⟩ := exists_step_of_mem_zip hnodes hmem
      obtain ⟨s', hs', hlocate⟩ := (mem_of_mapM_eq_ok hnodes).1 hj
      obtain ⟨hnone, rfl⟩ := edgeOn_eq_error hedge
      exact ⟨s, hsub hs, Or.inr (Or.inl
        ⟨s', hsub hs', i, j, hi, locate_eq_ok.1 hlocate, hnone, rfl⟩)⟩
    · dsimp only at h
      split at h
      · next left hlap =>
        cases h
        have hlength := length_edgesAround hedges
          (by rw [List.length_map, (mapM_eq_ok_iff.1 hnodes).length_eq])
        refine ⟨first, hsub List.mem_cons_self, Or.inr (Or.inr ⟨?_, rfl⟩)⟩
        intro s hs i hi hsensor
        rw [hopen] at hs
        have hmem := (mem_of_mapM_eq_ok hnodes).2 ⟨s, hs, locate_eq_ok.2 hi⟩
        have hne : (measureLap g 0 (nodes.zip edges)).1 ≠ [] :=
          (measureLap_ne_nil_iff hlength).2 ⟨i, hmem, hsensor⟩
        exact hne (by rw [hlap])
      · cases h

end Calibration

namespace Registry

variable {r : Registry} {g : Graph} {records : List LineRecord} {e : CompileError}

/-! ## By name -/

theorem Draws.build_eq_error (h : r.Draws g records)
    (he : (MutexTable.build g r.mutexes).result = .error e) :
    ∃ m ∈ records.filterMap LineRecord.mutex?, ∃ p ∈ m.edges,
      ¬ Leads (declsOf records) p.1 p.2 ∧ e = .unknownEdge m.line p.1 p.2 := by
  obtain ⟨m, hm, p, hp, hno, rfl⟩ := Graph.exists_of_build_eq_error he
  refine ⟨m, h.holds.mutexes_eq ▸ hm, p, hp, ?_, rfl⟩
  rw [← h.exists_namesEdge_iff, not_exists]
  exact hno

theorem Draws.extract_eq_error (h : r.Draws g records)
    (he : Calibration.extract g r.loop = .error e) :
    ∃ s ∈ records.filterMap LineRecord.step?,
      (¬ Declared (declsOf records) s.node ∧ e = .unknownName s.line s.node) ∨
      (∃ b, ¬ Leads (declsOf records) s.node b ∧ e = .invalidLoop s.line (.gap s.node b)) ∨
      (∀ d ∈ declsOf records, d.kind.tag = .sensor →
        d.name ∉ openRound ((records.filterMap LineRecord.step?).map LoopStep.node)) ∧
          e = .invalidLoop s.line .noSensor := by
  obtain ⟨s, hs, hcases⟩ := Calibration.extract_eq_error he
  refine ⟨s, h.holds.loop_eq ▸ hs, ?_⟩
  rcases hcases with ⟨hnone, rfl⟩ | ⟨s', -, i, j, hi, hj, hnone, rfl⟩ | ⟨hnone, rfl⟩
  · refine Or.inl ⟨?_, rfl⟩
    rw [← h.exists_nodeId?_iff, hnone]
    simp
  · refine Or.inr (Or.inl ⟨s'.node, ?_, by rw [h.nameOf_eq hi, h.nameOf_eq hj]⟩)
    rw [h.leads_iff_follows hi hj]
    exact h.wellFormed.edgeBetween?_eq_none_iff.1 hnone
  · refine Or.inr (Or.inr ⟨fun d hd ht hmem => ?_, rfl⟩)
    rw [← h.holds.loop_eq, ← Calibration.map_openSteps] at hmem
    obtain ⟨s', hs', hname⟩ := List.mem_map.1 hmem
    obtain ⟨i, hi⟩ := h.exists_nodeId?_iff.2 (List.mem_map_of_mem (f := Decl.name) hd)
    exact hnone s' hs' i (hname ▸ hi) ((h.isSensor_iff hi).2 ⟨d, hd, ht, rfl⟩)

end Registry

end TrackPlan
