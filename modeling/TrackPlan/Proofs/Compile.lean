import TrackPlan.Compile
import TrackPlan.Proofs.Graph.Measuring
import TrackPlan.Proofs.Graph.Naming
import TrackPlan.Proofs.Graph.Outgoing

/-!
# Compilation, stage by stage

A description compiles if every stage succeeds (`compile_eq_ok`), and fails with the first stage
that does not (`compile_eq_error_iff`). What the early stages leave behind is at hand for the later
ones: `exists_stages_of_compile` recalls the records and the registry of a compiled track, and that
the graph is made of them.
-/

namespace TrackPlan

variable {r : Registry} {text : String} {o : Options} {t : Track}

theorem Registry.compile_eq_ok : (r.compile o).result = .ok t ↔
    (r.link o).result = .ok t.graph ∧ t.graph.check = .ok () ∧
      (MutexTable.build t.graph r.mutexes).result = .ok t.mutexes ∧
        Calibration.extract t.graph r.loop = .ok t.loop := by
  unfold Registry.compile
  simp only [Report.result_bind_eq_ok_iff, Report.result_ofExcept, Report.result_pure,
    Except.ok.injEq]
  constructor
  · intro h
    obtain ⟨g, hg, ⟨⟩, hc, m, hm, l, hl, rfl⟩ := h
    exact ⟨hg, hc, hm, hl⟩
  · intro h
    obtain ⟨hg, hc, hm, hl⟩ := h
    exact ⟨_, hg, (), hc, _, hm, _, hl, rfl⟩

/-- Compiling a description, stage by stage. -/
theorem compile_eq_ok : (compile text o).result = .ok t ↔
    ∃ records, readRecords text = .ok records ∧
      ∃ r, Registry.ofRecords records = .ok r ∧ (r.compile o).result = .ok t := by
  unfold compile compileRecords
  simp only [Report.result_bind_eq_ok_iff, Report.result_ofExcept]

/-- Compiling a description, all stages in one. The entries of distances are inserted in their order
one by one; unlike merging, this can be computed in a proof. -/
theorem compile_eq_inserting (text : String) (o : Options) : compile text o = do
    let records ← Report.ofExcept (readRecords text)
    let r ← Report.ofExcept (Registry.ofRecords records)
    Report.ofExcept (r.checkCapacity o)
    let wired ← Report.ofExcept r.wire
    let table ← r.distanceTable wired.places
    let (g, measured, outcome) := wired.measure (table.insertionSort (DistanceEntry.before · ·))
    Report.ofExcept outcome
    g.judgeUnmeasured measured o.requireDistances
    Report.ofExcept g.check
    let mutexes ← MutexTable.build g r.mutexes
    let loop ← Report.ofExcept (Calibration.extract g r.loop)
    return ⟨g, mutexes, loop⟩ := by
  unfold compile compileRecords Registry.compile Registry.link
  simp only [Graph.attach_eq_inserting, bind_assoc, pure_bind]

/-! ## The stage that fails -/

theorem Registry.compile_eq_error_iff {e : CompileError} : (r.compile o).result = .error e ↔
    (r.link o).result = .error e ∨ ∃ g, (r.link o).result = .ok g ∧ (g.check = .error e ∨
      g.check = .ok () ∧ ((MutexTable.build g r.mutexes).result = .error e ∨
        ∃ m, (MutexTable.build g r.mutexes).result = .ok m ∧
          Calibration.extract g r.loop = .error e)) := by
  unfold Registry.compile
  simp only [Report.result_bind_eq_error_iff, Report.result_ofExcept, Report.result_pure,
    reduceCtorEq, and_false, exists_false, or_false]
  refine or_congr_right (exists_congr fun g => and_congr_right fun _ => or_congr_right ?_)
  exact ⟨fun ⟨(), h⟩ => h, fun h => ⟨(), h⟩⟩

theorem compile_eq_error_iff {e : CompileError} : (compile text o).result = .error e ↔
    readRecords text = .error e ∨ ∃ records, readRecords text = .ok records ∧
      (Registry.ofRecords records = .error e ∨
        ∃ r, Registry.ofRecords records = .ok r ∧ (r.compile o).result = .error e) := by
  unfold compile compileRecords
  simp only [Report.result_bind_eq_error_iff, Report.result_ofExcept]

/-! ## What the stages leave behind -/

/-- What the stages of a compilation leave behind. -/
structure Stages (text : String) (o : Options) (t : Track) (records : List LineRecord)
    (r : Registry) : Prop where
  read : readRecords text = .ok records
  draws : r.Draws t.graph records
  link : (r.link o).result = .ok t.graph
  check : t.graph.check = .ok ()
  build : (MutexTable.build t.graph r.mutexes).result = .ok t.mutexes
  extract : Calibration.extract t.graph r.loop = .ok t.loop

namespace Stages

variable {records : List LineRecord}

theorem of_ofRecords (hread : readRecords text = .ok records)
    (hr : Registry.ofRecords records = .ok r) (hc : (r.compile o).result = .ok t) :
    Stages text o t records r := by
  obtain ⟨hlink, hcheck, hbuild, hextract⟩ := Registry.compile_eq_ok.1 hc
  have hdraws : r.Draws t.graph records := ⟨(Registry.reachable_ofRecords hr).valid,
    Registry.holds_ofRecords hr, Registry.wires_of_link hlink⟩
  exact ⟨hread, hdraws, hlink, hcheck, hbuild, hextract⟩

theorem wellFormed (h : Stages text o t records r) : t.graph.WellFormed := h.draws.wellFormed

theorem mirrored (h : Stages text o t records r) : t.graph.Mirrored := h.draws.mirrored

theorem nodeCount_le (h : Stages text o t records r) : t.graph.nodeCount ≤ nodeCeiling :=
  Registry.nodeCount_le_of_link h.link

theorem reversible (h : Stages text o t records r) : t.graph.Reversible :=
  (h.wellFormed.check_eq_ok_iff.1 h.check).2

end Stages

/-- Behind a compiled track there are its records and its registry. -/
theorem exists_stages_of_compile (h : (compile text o).result = .ok t) :
    ∃ records r, Stages text o t records r := by
  obtain ⟨records, hread, r, hr, hc⟩ := compile_eq_ok.1 h
  exact ⟨records, r, Stages.of_ofRecords hread hr hc⟩

/-- The registry behind a compiled track, and what its graph has passed. -/
theorem exists_draws_of_compile (h : (compile text o).result = .ok t) :
    ∃ (r : Registry) (records : List LineRecord),
      r.Draws t.graph records ∧ t.graph.check = .ok () := by
  obtain ⟨records, r, hs⟩ := exists_stages_of_compile h
  exact ⟨r, records, hs.draws, hs.check⟩

end TrackPlan
