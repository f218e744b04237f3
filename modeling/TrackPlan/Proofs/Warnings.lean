import TrackPlan.Proofs.Compile

/-!
# The warnings of a compilation

A track compiles with the warnings of three stages, in this order: the distances are gathered, edges
have none, and mutex groups are merged (`exists_warnings_of_compile`). Each stage gives warnings of
its own kind, so all warnings of a kind are found in the report of one stage
(`exists_redeclarations_of_compile`, `exists_overlaps_of_compile`).
-/

namespace TrackPlan

namespace Report

variable {α β : Type} {x : Report α} {f : α → Report β} {a : α} {P : Warning → Prop}

theorem warnings_bind (h : x.result = .ok a) :
    (x >>= f).warnings = x.warnings ++ (f a).warnings := by
  obtain ⟨warnings, result⟩ := x
  cases h
  rfl

theorem warnings_ofExcept_bind {y : Except CompileError α} (h : y = .ok a) :
    (ofExcept y >>= f).warnings = (f a).warnings :=
  warnings_bind (x := ofExcept y) h

theorem warnings_map (f : α → β) : (f <$> x).warnings = x.warnings := by
  obtain ⟨warnings, result⟩ := x
  cases result with
  | error e => rfl
  | ok a => exact List.append_nil warnings

/-- A step after a step gives the warnings of both. -/
theorem forall_mem_warnings_bind (hx : ∀ w ∈ x.warnings, P w)
    (hf : ∀ a, ∀ w ∈ (f a).warnings, P w) : ∀ w ∈ (x >>= f).warnings, P w := by
  obtain ⟨warnings, result⟩ := x
  cases result with
  | error e => exact hx
  | ok a =>
    intro w hw
    rcases List.mem_append.1 hw with hw | hw
    · exact hx w hw
    · exact hf a w hw

end Report

/-! ## Kinds of warnings -/

/-- The line of the distance record that the warning is about, if it is about one. -/
def Warning.redeclaration? : Warning → Option Nat
  | .distanceRedeclared _ _ _ line => some line
  | .noDistance .. | .mutexOverlap .. => none

/-- The line of the mutex record that the warning is about, if it is about one, and how many earlier
groups the record is merged with. -/
def Warning.overlap? : Warning → Option (Nat × Nat)
  | .mutexOverlap line groups => some (line, groups)
  | .distanceRedeclared .. | .noDistance .. => none

/-- The lines of the distance records that give a pair another distance. -/
def Report.redeclarations {α : Type} (x : Report α) : List Nat :=
  x.warnings.filterMap Warning.redeclaration?

/-- The lines of the mutex records that overlap earlier groups, each with the number of these. -/
def Report.overlaps {α : Type} (x : Report α) : List (Nat × Nat) :=
  x.warnings.filterMap Warning.overlap?

theorem DistanceTable.overlap?_of_mem_redeclared {t : DistanceTable} {d : DistanceDecl}
    {pair : Nat × Nat} {w : Warning} (h : w ∈ t.redeclared d pair) : w.overlap? = none := by
  unfold redeclared at h
  split at h
  · split at h
    · rw [List.mem_singleton.1 h]
      rfl
    · cases h
  · cases h

/-- Gathering distances gives no warning about mutex records. -/
theorem Registry.overlap?_of_mem_gatherDistances {r : Registry} {places : List (String × Nat)}
    {t : DistanceTable} {xs : List DistanceDecl} :
    ∀ w ∈ (r.gatherDistances places t xs).warnings, w.overlap? = none := by
  induction xs generalizing t with
  | nil => exact fun w hw => absurd hw List.not_mem_nil
  | cons x rest ih =>
    have hdeclare : ∀ (t : DistanceTable) (pair : Nat × Nat) (implied : Bool),
        ∀ w ∈ (t.declare x pair implied).warnings, w.overlap? = none := by
      intro t pair implied
      refine Report.forall_mem_warnings_bind (fun w hw => ?_) fun _ w hw => ?_
      · exact DistanceTable.overlap?_of_mem_redeclared hw
      · exact absurd hw List.not_mem_nil
    unfold gatherDistances
    refine Report.forall_mem_warnings_bind (fun w hw => absurd hw List.not_mem_nil) fun pq => ?_
    refine Report.forall_mem_warnings_bind (hdeclare t _ _) fun t₁ => ?_
    exact Report.forall_mem_warnings_bind (hdeclare t₁ _ _) fun t₂ => ih

/-- Edges without a distance give warnings of their own. -/
theorem Graph.kinds_of_mem_judgeUnmeasured {g : Graph} {measured : List Nat} {required : Bool} :
    ∀ w ∈ (g.judgeUnmeasured measured required).warnings,
      w.redeclaration? = none ∧ w.overlap? = none := by
  intro w hw
  unfold judgeUnmeasured at hw
  cases required with
  | true =>
    dsimp only at hw
    rw [if_pos rfl] at hw
    split at hw <;> cases hw
  | false =>
    obtain ⟨e, -, rfl⟩ := List.mem_map.1 hw
    exact ⟨rfl, rfl⟩

/-- Merging mutex groups gives no warning about distances. -/
theorem Graph.redeclaration?_of_mem_mutexSlots {g : Graph} {m : MutexSlots}
    {decls : List MutexDecl} :
    ∀ w ∈ (g.mutexSlots m decls).warnings, w.redeclaration? = none := by
  induction decls generalizing m with
  | nil => exact fun w hw => absurd hw List.not_mem_nil
  | cons d rest ih =>
    unfold mutexSlots
    refine Report.forall_mem_warnings_bind (fun w hw => absurd hw List.not_mem_nil) fun s => ?_
    refine Report.forall_mem_warnings_bind (fun w hw => ?_) fun _ => ih
    have hw : w ∈ overlapWarnings d.line (m.overlapping (g.close s)).length := hw
    unfold overlapWarnings at hw
    split at hw
    · cases hw
    · rw [List.mem_singleton.1 hw]
      rfl

/-! ## The stages of a compiled track -/

section Compiled

variable {text : String} {o : Options} {t : Track} {r : Registry} {g : Graph}

theorem Registry.warnings_link (h : (r.link o).result = .ok g) : ∃ measured, (r.link o).warnings =
    (r.distanceTable g.places).warnings ++
      (g.judgeUnmeasured measured o.requireDistances).warnings := by
  obtain ⟨hcap, g₀, hg₀, t, ht, hok, rfl⟩ := link_eq_ok.1 h
  obtain ⟨hmeasure, -⟩ := Report.result_then_eq_ok_iff.1 hok
  refine ⟨(g₀.measure (t.mergeSort DistanceEntry.before)).2.1, ?_⟩
  have hplaces := ((wires_of_wire hg₀).attach t o.requireDistances).places_eq
  rw [hplaces, ← (wires_of_wire hg₀).places_eq]
  unfold link
  rw [Report.warnings_ofExcept_bind hcap, Report.warnings_ofExcept_bind hg₀,
    Report.warnings_bind ht, Report.warnings_bind hok]
  have hattach : (g₀.attach t o.requireDistances).2.warnings =
      ((g₀.attach t o.requireDistances).1.judgeUnmeasured
        (g₀.measure (t.mergeSort DistanceEntry.before)).2.1 o.requireDistances).warnings :=
    Report.warnings_ofExcept_bind hmeasure
  rw [hattach, Report.warnings_pure, List.append_nil]

/-- The warnings of a compiled track, stage by stage. -/
theorem exists_warnings_of_compile (h : (compile text o).result = .ok t) : ∃ records r measured,
    Stages text o t records r ∧ (compile text o).warnings =
      (r.distanceTable t.graph.places).warnings ++
        (t.graph.judgeUnmeasured measured o.requireDistances).warnings ++
          (t.graph.mutexSlots {} r.mutexes).warnings := by
  obtain ⟨records, hread, r, hr, hc⟩ := compile_eq_ok.1 h
  have hs := Stages.of_ofRecords hread hr hc
  obtain ⟨measured, hwarnings⟩ := Registry.warnings_link hs.link
  refine ⟨records, r, measured, hs, ?_⟩
  unfold compile compileRecords
  rw [Report.warnings_ofExcept_bind hread, Report.warnings_ofExcept_bind hr]
  unfold Registry.compile
  rw [Report.warnings_bind hs.link, Report.warnings_ofExcept_bind hs.check,
    Report.warnings_bind hs.build, Report.warnings_ofExcept_bind hs.extract, Report.warnings_pure,
    List.append_nil, hwarnings]
  congr 1
  exact Report.warnings_map _

/-- The redeclarations of a compiled track are those of its distance table. -/
theorem exists_redeclarations_of_compile (h : (compile text o).result = .ok t) :
    ∃ records r, Stages text o t records r ∧
      (compile text o).redeclarations = (r.distanceTable t.graph.places).redeclarations := by
  obtain ⟨records, r, measured, hs, hwarnings⟩ := exists_warnings_of_compile h
  refine ⟨records, r, hs, ?_⟩
  unfold Report.redeclarations
  rw [hwarnings, List.filterMap_append, List.filterMap_append,
    List.filterMap_eq_nil_iff.2 fun w hw => (Graph.kinds_of_mem_judgeUnmeasured w hw).1,
    List.filterMap_eq_nil_iff.2 Graph.redeclaration?_of_mem_mutexSlots, List.append_nil,
    List.append_nil]

/-- The overlaps of a compiled track are those of its mutex records. -/
theorem exists_overlaps_of_compile (h : (compile text o).result = .ok t) :
    ∃ records r, Stages text o t records r ∧
      (compile text o).overlaps = (t.graph.mutexSlots {} r.mutexes).overlaps := by
  obtain ⟨records, r, measured, hs, hwarnings⟩ := exists_warnings_of_compile h
  refine ⟨records, r, hs, ?_⟩
  have hgather : ∀ w ∈ (r.distanceTable t.graph.places).warnings, w.overlap? = none :=
    Registry.overlap?_of_mem_gatherDistances
  unfold Report.overlaps
  rw [hwarnings, List.filterMap_append, List.filterMap_append, List.filterMap_eq_nil_iff.2 hgather,
    List.filterMap_eq_nil_iff.2 fun w hw => (Graph.kinds_of_mem_judgeUnmeasured w hw).2,
    List.nil_append, List.nil_append]

end Compiled

end TrackPlan
