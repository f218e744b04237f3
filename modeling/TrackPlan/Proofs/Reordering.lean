import TrackPlan.Proofs.Reordering.Stages

/-!
# Reordered descriptions

The lines of a description may be reordered as long as the records of each class keep their order,
and sensors, comments and blank lines may go anywhere: the description compiles to the same track,
or fails as before.

1. `ReorderedLines.exists_records`: reordered lines are read as reordered records.
2. `Registry.Holds.sameLayout`: reordered records have the same layout, and so do rearranged ones.
3. `compile_eq_ok_iff_of_reordered` takes the stages one by one.
-/

namespace TrackPlan

open Text

/-! ## Reordered lines -/

/-- The record that a line holds, if it holds one. -/
def recordOf? (raw : List Char) : Option Record := (readLine 0 raw).toOption.join

/-- The class of the record that a line holds. -/
def lineClass? (raw : List Char) : Option Record.Class := (recordOf? raw).map Record.classOf

/-- The same lines in another order; but the lines of each class of records, sensors apart, keep
their order. -/
structure ReorderedLines (ls ls' : List (List Char)) : Prop where
  perm : ls.Perm ls'
  ordered : ∀ c, c ≠ .sensors →
    ls.filter (lineClass? · = some c) = ls'.filter (lineClass? · = some c)

variable {ls ls' : List (List Char)} {raw : List Char} {records records' : List LineRecord}
  {n m : Nat}

theorem ReorderedLines.symm (h : ReorderedLines ls ls') : ReorderedLines ls' ls :=
  ⟨h.perm.symm, fun c hc => (h.ordered c hc).symm⟩

/-- The number of a line makes no difference for what is read. -/
theorem readLine_eq_ok_iff_of_number {record? : Option Record} :
    readLine n raw = .ok record? ↔ readLine m raw = .ok record? := by
  unfold readLine
  dsimp only
  split
  · exact Iff.rfl
  · cases Record.read (trim raw) <;> simp

theorem recordOf?_eq {record? : Option Record} (h : readLine n raw = .ok record?) :
    recordOf? raw = record? := by
  unfold recordOf?
  rw [readLine_eq_ok_iff_of_number.1 h]
  rfl

/-- Lines are read if every line is. -/
theorem exists_readLines_iff : (∃ records, readLines n ls = .ok records) ↔
    ∀ raw ∈ ls, ∃ record?, readLine 0 raw = .ok record? := by
  induction ls generalizing n with
  | nil => simp [readLines]
  | cons raw rest ih =>
    unfold readLines
    rw [List.forall_mem_cons, ← ih (n := n + 1)]
    simp only [bind_eq_ok_iff]
    constructor
    · intro h
      obtain ⟨records, record?, hread, rest', hrest, -⟩ := h
      exact ⟨⟨record?, readLine_eq_ok_iff_of_number.1 hread⟩, rest', hrest⟩
    · intro h
      obtain ⟨⟨record?, hread⟩, rest', hrest⟩ := h
      have hread : readLine n raw = .ok record? := readLine_eq_ok_iff_of_number.1 hread
      cases record? with
      | none => exact ⟨_, none, hread, rest', hrest, rfl⟩
      | some record => exact ⟨_, some record, hread, rest', hrest, rfl⟩

/-- The records that are read are those that the lines hold. -/
theorem map_unnumbered_of_readLines (h : readLines n ls = .ok records) :
    records.map LineRecord.unnumbered = (ls.filterMap recordOf?).map (LineRecord.mk 0) := by
  induction ls generalizing n records with
  | nil =>
    cases h
    rfl
  | cons raw rest ih =>
    unfold readLines at h
    simp only [bind_eq_ok_iff] at h
    obtain ⟨record?, hread, rest', hrest, hout⟩ := h
    rw [List.filterMap_cons, recordOf?_eq hread]
    cases record? with
    | none =>
      cases hout
      exact ih hrest
    | some record =>
      cases hout
      rw [List.map_cons, ih hrest]
      rfl

/-- The records of a class are held by the lines of the class. -/
theorem ofClass_map_filterMap {c : Record.Class} :
    ofClass c ((ls.filterMap recordOf?).map (LineRecord.mk 0)) =
      ((ls.filter (lineClass? · = some c)).filterMap recordOf?).map (LineRecord.mk 0) := by
  induction ls with
  | nil => rfl
  | cons raw rest ih =>
    unfold ofClass lineClass? at ih ⊢
    cases hr : recordOf? raw with
    | none => simpa [List.filterMap_cons, List.filter_cons, hr] using ih
    | some record =>
      by_cases hc : record.classOf = c
      · simpa [List.filterMap_cons, List.filter_cons, hr, hc] using ih
      · simpa [List.filterMap_cons, List.filter_cons, hr, hc] using ih

/-- Lines in another order are read as records in another order. Where the lines of a class keep
their order, its records do. -/
theorem exists_readLines_of_perm (h : ls.Perm ls') (hread : readLines n ls = .ok records) :
    ∃ records', readLines n ls' = .ok records' ∧
      (records.map LineRecord.unnumbered).Perm (records'.map LineRecord.unnumbered) ∧
      ∀ c, ls.filter (lineClass? · = some c) = ls'.filter (lineClass? · = some c) →
        ofClass c (records.map LineRecord.unnumbered) =
          ofClass c (records'.map LineRecord.unnumbered) := by
  have hall := exists_readLines_iff.1 ⟨records, hread⟩
  obtain ⟨records', hread'⟩ := exists_readLines_iff.2 fun raw hraw =>
    hall raw (h.mem_iff.2 hraw)
  refine ⟨records', hread', ?_, fun c hc => ?_⟩
  · rw [map_unnumbered_of_readLines hread, map_unnumbered_of_readLines hread']
    exact (h.filterMap _).map _
  · rw [map_unnumbered_of_readLines hread, map_unnumbered_of_readLines hread',
      ofClass_map_filterMap, ofClass_map_filterMap, hc]

/-- Reordered lines are read as reordered records. -/
theorem ReorderedLines.exists_records (h : ReorderedLines ls ls')
    (hread : readLines n ls = .ok records) :
    ∃ records', readLines n ls' = .ok records' ∧ Reordered records records' := by
  obtain ⟨records', hread', hperm, hclass⟩ := exists_readLines_of_perm h.perm hread
  exact ⟨records', hread', hperm, fun c hc => hclass c (h.ordered c hc)⟩

/-! ## Reordered and rearranged records -/

namespace Registry

variable {r r' : Registry}

theorem holdsSensor_unnumbered (d? : Option Decl) :
    holdsSensor (d?.map Decl.unnumbered) = holdsSensor d? := by
  cases d? <;> rfl

/-- Registries of rearranged records have the same layout. -/
theorem Holds.sameLayout (hh : r.Holds records) (hv : r.Valid) (hh' : r'.Holds records')
    (hv' : r'.Valid) (h : Rearranged records records') : r.SameLayout r' where
  placed_eq := hh.placed_eq_of_rearranged hv hh' hv' h
  length_eq := by
    have hcount : ∀ r : Registry, r.placed.countP holdsSensor =
        (r.placed.map (Option.map Decl.unnumbered)).countP holdsSensor := by
      intro r
      rw [List.countP_map]
      exact List.countP_congr fun d? _ => by
        rw [Function.comp_apply, holdsSensor_unnumbered]
    rw [← hv.countP_placed, ← hv'.countP_placed, hcount r, hcount r',
      hh.placed_eq_of_rearranged hv hh' hv' h]
  sensorSlots_eq := by
    rw [hv.sensorSlots_eq (hh.addressed hv), hv'.sensorSlots_eq (hh'.addressed hv'), hh.decls_eq,
      hh'.decls_eq, addressSpan_eq_of_perm h.decls_perm]

/-- Registries of rearranged records compile to one track, if they compile and the last distances
are the same. -/
theorem Holds.compile_eq {o : Options} {t t' : Track} (hh : r.Holds records) (hv : r.Valid)
    (hh' : r'.Holds records') (hv' : r'.Valid) (h : Rearranged records records')
    (hx : t.graph.lastDistance (records.filterMap LineRecord.distance?) =
      t.graph.lastDistance (records'.filterMap LineRecord.distance?))
    (ht : (r.compile o).result = .ok t) (ht' : (r'.compile o).result = .ok t') : t = t' := by
  obtain ⟨hlink, -, hmutex, hloop⟩ := compile_eq_ok.1 ht
  obtain ⟨hlink', -, hmutex', hloop'⟩ := compile_eq_ok.1 ht'
  have hgraph : t.graph = t'.graph :=
    (hh.sameLayout hv hh' hv' h).link_eq ⟨hv, hh, wires_of_link hlink⟩
      ⟨hv', hh', wires_of_link hlink'⟩ hlink hlink' hx
  rw [hh.mutexes_eq, ← MutexTable.build_unnumbered, h.mutexes_eq, MutexTable.build_unnumbered,
    hgraph, ← hh'.mutexes_eq, hmutex', Except.ok.injEq] at hmutex
  rw [hh.loop_eq, ← Calibration.extract_unnumbered, h.steps_eq, Calibration.extract_unnumbered,
    hgraph, ← hh'.loop_eq, hloop', Except.ok.injEq] at hloop
  cases t
  cases t'
  cases hgraph
  cases hmutex
  cases hloop
  rfl

end Registry

theorem compileRecords_eq_ok {o : Options} {t : Track} :
    (compileRecords records o).result = .ok t ↔
      ∃ r, Registry.ofRecords records = .ok r ∧ (r.compile o).result = .ok t := by
  unfold compileRecords
  simp only [Report.result_bind_eq_ok_iff, Report.result_ofExcept]

/-- Rearranged records compile to the same track if the last distances are the same. -/
theorem Rearranged.compileRecords {o : Options} {t : Track} (h : Rearranged records records')
    (hx : t.graph.lastDistance (records.filterMap LineRecord.distance?) =
      t.graph.lastDistance (records'.filterMap LineRecord.distance?))
    (ht : (compileRecords records o).result = .ok t) :
    (compileRecords records' o).result = .ok t := by
  obtain ⟨r, hr, hc⟩ := compileRecords_eq_ok.1 ht
  have hv := (Registry.reachable_ofRecords hr).valid
  have hh := Registry.holds_ofRecords hr
  have hw := h.wellDescribed ((hh.exists_compile_iff hv).1 ⟨t, hc⟩)
  obtain ⟨r', hr'⟩ := Registry.exists_ofRecords_iff.2 hw.distinct
  have hv' := (Registry.reachable_ofRecords hr').valid
  have hh' := Registry.holds_ofRecords hr'
  obtain ⟨t', hc'⟩ := (hh'.exists_compile_iff hv').2 hw
  rw [hh.compile_eq hv hh' hv' h hx hc hc']
  exact compileRecords_eq_ok.2 ⟨r', hr', hc'⟩

/-- Reordered records compile to the same track. -/
theorem Reordered.compileRecords {o : Options} {t : Track} (h : Reordered records records')
    (ht : (compileRecords records o).result = .ok t) :
    (compileRecords records' o).result = .ok t := by
  refine h.rearranged.compileRecords ?_ ht
  rw [← Graph.lastDistance_unnumbered, h.distances_eq, Graph.lastDistance_unnumbered]

theorem ReorderedLines.compile {a b : String} {o : Options} {t : Track}
    (h : ReorderedLines (lines a.toList) (lines b.toList))
    (ht : (compile a o).result = .ok t) : (compile b o).result = .ok t := by
  unfold TrackPlan.compile at ht ⊢
  rw [Report.result_bind_eq_ok_iff] at ht ⊢
  simp only [Report.result_ofExcept] at ht ⊢
  obtain ⟨records, hread, hc⟩ := ht
  obtain ⟨records', hread', hr⟩ := h.exists_records hread
  exact ⟨records', hread', hr.compileRecords hc⟩

/-- **Reordering.** Two texts with the same lines, in which the records of each class but sensors
stand in the same order, compile to the same track or fail both. -/
theorem compile_eq_ok_iff_of_reordered {a b : String}
    (h : ReorderedLines (lines a.toList) (lines b.toList)) (o : Options) (t : Track) :
    (compile a o).result = .ok t ↔ (compile b o).result = .ok t :=
  ⟨h.compile, h.symm.compile⟩

/-- The shuttle with a loop from one sensor to the other and back. -/
def loopedShuttle : String := "# there and back\n" ++ shuttle ++ "\ncalib A\ncalib B"

/-- The same lines, with the sensors behind what is said of them. -/
def shuffledShuttle : String :=
  "calib A\ndist A B 5mm\n# there and back\nsensor A : 0 -> B @ B : 1 -> A\ncalib B\ndist B A 7mm"

theorem reorderedLines_shuttle :
    ReorderedLines (lines loopedShuttle.toList) (lines shuffledShuttle.toList) where
  perm := by decide +kernel
  ordered := by
    -- the lines are read once for all classes
    have h : ∀ c ∈ [Record.Class.separators, .switches, .terminals, .distances, .mutexes, .steps],
        (lines loopedShuttle.toList).filter (lineClass? · = some c) =
          (lines shuffledShuttle.toList).filter (lineClass? · = some c) := by
      decide +kernel
    intro c hc
    apply h
    cases c <;> simp at hc ⊢

theorem compile_shuffledShuttle :
    ReorderedLines (lines loopedShuttle.toList) (lines shuffledShuttle.toList) ∧
      ∃ t, (compile loopedShuttle {}).result = .ok t ∧
        t.loop = some ⟨[0, 1], [0, 1], [⟨0, 7⟩, ⟨1, 7⟩], []⟩ ∧
          (compile shuffledShuttle {}).result = .ok t := by
  have h : (compile loopedShuttle {}).result.toOption.map Track.loop =
      some (some ⟨[0, 1], [0, 1], [⟨0, 7⟩, ⟨1, 7⟩], []⟩) := by
    rw [compile_eq_inserting]
    decide +kernel
  obtain ⟨t, ht, hloop⟩ := exists_of_toOption_map h
  exact ⟨reorderedLines_shuttle, t, ht, hloop,
    (compile_eq_ok_iff_of_reordered reorderedLines_shuttle {} t).1 ht⟩

end TrackPlan
