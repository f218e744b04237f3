import TrackPlan.Proofs.Mutex.Components
import TrackPlan.Proofs.Record.Reading
import TrackPlan.Proofs.Warnings

/-!
# Warnings account for merged groups

A mutex record whose closed set overlaps earlier groups is merged with them, and a warning says with
how many. Every record starts a group or loses some by a merge, so declared groups and merges
together are as many as records.

1. `length_mergeSet` counts one step, and `length_mutexSets` the whole run.
2. `mem_overlaps_iff` is the run of the warnings: which records they are about.
3. `overlaps_of_compile` puts these together.
-/

namespace TrackPlan

/-! ## Counting sets -/

section Step

variable {earlier sets : List EdgeSet} {s : EdgeSet} {e line : Nat}

/-- The step: a set comes to the earlier ones, and one of those it overlaps remains. -/
theorem length_mergeSet (earlier : List EdgeSet) (s : EdgeSet) :
    (mergeSet earlier s).length + earlier.countP (EdgeSet.overlaps s) = earlier.length + 1 := by
  induction earlier with
  | nil => rfl
  | cons first rest ih =>
    have hparts : rest.length = rest.countP (EdgeSet.overlaps s) +
        (rest.filter fun t => !EdgeSet.overlaps s t).length := by
      simpa [List.countP_eq_length_filter] using
        List.length_eq_countP_add_countP (EdgeSet.overlaps s) (l := rest)
    unfold mergeSet
    by_cases h : EdgeSet.overlaps s first = true
    · rw [if_pos h, List.countP_cons_of_pos h, List.length_cons, List.length_cons]
      omega
    · rw [if_neg h, List.countP_cons_of_neg h, List.length_cons, List.length_cons]
      omega

/-- Merging loses no edge. -/
theorem exists_mem_mergeSet_iff :
    (∃ t ∈ mergeSet earlier s, e ∈ t) ↔ e ∈ s ∨ ∃ t ∈ earlier, e ∈ t := by
  induction earlier with
  | nil => simp [mergeSet]
  | cons first rest ih =>
    unfold mergeSet
    by_cases h : EdgeSet.overlaps s first = true
    · rw [if_pos h]
      simp only [List.exists_mem_cons_iff, mem_foldl_union, EdgeSet.mem_union, List.mem_filter]
      constructor
      · rintro (((he | he) | ⟨t, ⟨ht, -⟩, he⟩) | ⟨t, ⟨ht, -⟩, he⟩)
        · exact Or.inr (Or.inl he)
        · exact Or.inl he
        · exact Or.inr (Or.inr ⟨t, ht, he⟩)
        · exact Or.inr (Or.inr ⟨t, ht, he⟩)
      · rintro (he | he | ⟨t, ht, he⟩)
        · exact Or.inl (Or.inl (Or.inr he))
        · exact Or.inl (Or.inl (Or.inl he))
        · -- one of the others is either merged or kept
          by_cases hov : EdgeSet.overlaps s t = true
          · exact Or.inl (Or.inr ⟨t, ⟨ht, hov⟩, he⟩)
          · exact Or.inr ⟨t, ⟨ht, by simpa using hov⟩, he⟩
    · rw [if_neg h, List.exists_mem_cons_iff, List.exists_mem_cons_iff, ih]
      exact or_left_comm

/-- The warning about a set, if there is one. -/
theorem filterMap_overlapWarnings {groups : Nat} :
    (overlapWarnings line groups).filterMap Warning.overlap? =
      if groups = 0 then [] else [(line, groups)] := by
  cases groups <;> rfl

theorem countP_overlaps_ne_zero_iff : earlier.countP (EdgeSet.overlaps s) ≠ 0 ↔
    ∃ e ∈ s, ∃ t ∈ earlier, e ∈ t := by
  rw [← Nat.pos_iff_ne_zero, List.countP_pos_iff]
  simp only [EdgeSet.overlaps_iff]
  constructor
  · rintro ⟨t, ht, e, hes, het⟩
    exact ⟨e, hes, t, ht, het⟩
  · rintro ⟨e, hes, t, ht, het⟩
    exact ⟨t, ht, e, hes, het⟩

end Step

/-! ## Counting groups -/

namespace MutexTable

variable {t : MutexTable} {n : Nat} {sets : List EdgeSet}

theorem declaredCount_push (members : EdgeSet) (declared : Bool) :
    (t.push members declared).declaredCount = t.declaredCount + declared.toNat := by
  unfold declaredCount push
  dsimp only
  rw [Array.countP_push]
  cases declared <;> rfl

theorem declaredCount_foldl_push :
    (sets.foldl (·.push · true) t).declaredCount = t.declaredCount + sets.length := by
  induction sets generalizing t with
  | nil => rfl
  | cons s rest ih =>
    rw [List.foldl_cons, ih, declaredCount_push, List.length_cons, Bool.toNat_true]
    omega

theorem declaredCount_foldl_pushAlone {edges : List Nat} :
    (edges.foldl pushAlone t).declaredCount = t.declaredCount := by
  induction edges generalizing t with
  | nil => rfl
  | cons edge rest ih =>
    rw [List.foldl_cons, ih, pushAlone]
    split
    · exact declaredCount_push [edge] false
    · rfl

/-- The declared groups of a table are its sets. -/
theorem declaredCount_ofSets : (ofSets n sets).declaredCount = sets.length := by
  unfold ofSets
  rw [declaredCount_foldl_pushAlone, declaredCount_foldl_push]
  simp [start, declaredCount]

end MutexTable

/-! ## All records -/

namespace Graph

variable {g : Graph} {decls : List MutexDecl} {d : MutexDecl} {earlier sets : List EdgeSet}
  {s : EdgeSet} {i : Nat}

theorem mutexSets_cons : (g.mutexSets earlier (d :: decls)).result = .ok sets ↔
    ∃ s, g.mutexSeed d = .ok s ∧
      (g.mutexSets (mergeSet earlier (g.close s)) decls).result = .ok sets := by
  conv_lhs => unfold mutexSets
  simp only [Report.result_bind_eq_ok_iff, Report.result_ofExcept]
  constructor
  · rintro ⟨s, hs, ⟨⟩, -, h⟩
    exact ⟨s, hs, h⟩
  · rintro ⟨s, hs, h⟩
    exact ⟨s, hs, (), rfl, h⟩

/-- Merging in slots gives the same warnings. -/
theorem warnings_mutexSlots (g : Graph) (decls : List MutexDecl) :
    (g.mutexSlots {} decls).warnings = (g.mutexSets [] decls).warnings := by
  have hrun := congrArg Report.warnings (MutexSlots.simulates_empty.mutexSlots g decls)
  rwa [Report.warnings_map, Report.warnings_map] at hrun

/-- The overlaps of the first record, and then those of the others. -/
theorem overlaps_mutexSets_cons (hs : g.mutexSeed d = .ok s) :
    (g.mutexSets earlier (d :: decls)).overlaps =
      (overlapWarnings d.line (earlier.countP (EdgeSet.overlaps (g.close s)))).filterMap
          Warning.overlap? ++
        (g.mutexSets (mergeSet earlier (g.close s)) decls).overlaps := by
  unfold Report.overlaps
  conv_lhs => unfold mutexSets
  rw [Report.warnings_ofExcept_bind hs, Report.warnings_bind (a := ()) rfl, List.filterMap_append]
  rfl

/-- The run: a record that is not merged makes a set, and one that is merged leaves one of those it
is merged with. -/
theorem length_mutexSets (h : (g.mutexSets earlier decls).result = .ok sets) :
    sets.length + ((g.mutexSets earlier decls).overlaps.map Prod.snd).sum =
      earlier.length + decls.length := by
  induction decls generalizing earlier with
  | nil =>
    cases h
    rfl
  | cons d rest ih =>
    obtain ⟨s, hs, h⟩ := mutexSets_cons.1 h
    have hstep := length_mergeSet earlier (g.close s)
    have hrest := ih h
    have hfirst : ∀ groups, (((overlapWarnings d.line groups).filterMap
        Warning.overlap?).map Prod.snd).sum = groups := by
      intro groups
      rw [filterMap_overlapWarnings]
      split
      · next hzero => rw [hzero]; rfl
      · simp
    rw [overlaps_mutexSets_cons hs, List.map_append, List.sum_append, hfirst, List.length_cons]
    omega

/-- Warnings come in the order of the records, at most one for each. -/
theorem lines_overlaps_sublist (h : (g.mutexSets earlier decls).result = .ok sets) :
    ((g.mutexSets earlier decls).overlaps.map Prod.fst).Sublist (decls.map MutexDecl.line) := by
  induction decls generalizing earlier with
  | nil => exact List.Sublist.refl []
  | cons d rest ih =>
    obtain ⟨s, hs, h⟩ := mutexSets_cons.1 h
    rw [overlaps_mutexSets_cons hs, filterMap_overlapWarnings]
    split
    · exact (ih h).cons d.line
    · exact (ih h).cons_cons d.line

/-- The run: a warning is about a record that shares an edge with an earlier set or with an earlier
record. -/
theorem WellFormed.mem_overlaps_iff (hg : g.WellFormed)
    (h : (g.mutexSets earlier decls).result = .ok sets)
    (hlines : (decls.map MutexDecl.line).Nodup) (hi : decls[i]? = some d) :
    d.line ∈ (g.mutexSets earlier decls).overlaps.map Prod.fst ↔
      ∃ e ∈ g.tied d, (∃ s ∈ earlier, e ∈ s) ∨
        ∃ j < i, ∃ d', decls[j]? = some d' ∧ e ∈ g.tied d' := by
  induction decls generalizing earlier i with
  | nil => cases hi
  | cons first rest ih =>
    obtain ⟨hfresh, hlines⟩ := List.nodup_cons.1 hlines
    obtain ⟨s, hs, hrest⟩ := mutexSets_cons.1 h
    have hclose : ∀ e, e ∈ g.close s ↔ e ∈ g.tied first := fun e => hg.mem_close_mutexSeed hs
    have hfirst : ∀ line, line ∈ ((overlapWarnings first.line
        (earlier.countP (EdgeSet.overlaps (g.close s)))).filterMap Warning.overlap?).map Prod.fst ↔
          line = first.line ∧ ∃ e ∈ g.tied first, ∃ t ∈ earlier, e ∈ t := by
      intro line
      simp only [← hclose]
      rw [← countP_overlaps_ne_zero_iff, filterMap_overlapWarnings]
      split
      · next hzero => simp [hzero]
      · next hne => simp [hne]
    rw [overlaps_mutexSets_cons hs, List.map_append, List.mem_append, hfirst]
    cases i with
    | zero =>
      cases hi
      have hlater : d.line ∉
          (g.mutexSets (mergeSet earlier (g.close s)) rest).overlaps.map Prod.fst :=
        fun hmem => hfresh ((lines_overlaps_sublist hrest).subset hmem)
      rw [or_iff_left hlater]
      simp
    | succ i =>
      have hi : rest[i]? = some d := hi
      have hne : d.line ≠ first.line := fun heq =>
        hfresh (heq ▸ List.mem_map_of_mem (List.mem_of_getElem? hi))
      rw [ih hrest hlines hi, or_iff_right (fun hd => hne hd.1)]
      refine exists_congr fun e => and_congr_right fun _ => ?_
      rw [exists_mem_mergeSet_iff, hclose, or_comm (a := e ∈ g.tied first), or_assoc]
      refine or_congr_right ?_
      constructor
      · rintro (he | ⟨j, hj, d', hd', he⟩)
        · exact ⟨0, Nat.succ_pos i, first, rfl, he⟩
        · exact ⟨j + 1, Nat.succ_lt_succ hj, d', hd', he⟩
      · rintro ⟨j, hj, d', hd', he⟩
        cases j with
        | zero =>
          cases hd'
          exact Or.inl he
        | succ j => exact Or.inr ⟨j, Nat.lt_of_succ_lt_succ hj, d', hd', he⟩

end Graph

/-- Declared groups and merges account for every mutex record of a list. -/
structure MergesAccounted (g : Graph) (decls : List MutexDecl) (declared : Nat)
    (overlaps : List (Nat × Nat)) : Prop where
  declared_add_sum : declared + (overlaps.map Prod.snd).sum = decls.length
  /-- The line of a warning tells the record. -/
  lines_ascending : (decls.map MutexDecl.line).Pairwise (· < ·)
  lines_sublist : (overlaps.map Prod.fst).Sublist (decls.map MutexDecl.line)
  /-- A warning is about a record that shares an edge with an earlier one, and there is one for each
  such record. -/
  mem_lines_iff : ∀ {i : Nat} {d : MutexDecl}, decls[i]? = some d →
    (d.line ∈ overlaps.map Prod.fst ↔
      ∃ e ∈ g.tied d, ∃ j < i, ∃ d', decls[j]? = some d' ∧ e ∈ g.tied d')

/-- Mutex records that are read name at least one edge each. -/
theorem edges_ne_nil_of_readRecords {text : String} {records : List LineRecord}
    (h : readRecords text = .ok records) :
    ∀ m ∈ records.filterMap LineRecord.mutex?, m.edges ≠ [] := by
  intro m hm
  obtain ⟨entry, hentry, hmutex⟩ := List.mem_filterMap.1 hm
  obtain rfl := LineRecord.mutex?_eq_some_iff.1 hmutex
  exact (readRecords_eq_ok_iff.1 h).sound _ hentry

/-- No merged set is empty if every record names an edge. -/
theorem Graph.ne_nil_of_mutexSets {g : Graph} {decls : List MutexDecl} {sets : List EdgeSet}
    (h : (g.mutexSets [] decls).result = .ok sets) (hne : ∀ d ∈ decls, d.edges ≠ []) :
    ∀ s ∈ sets, s ≠ [] := by
  obtain ⟨seeds, hseeds, rfl⟩ := mutexSets_eq_ok.1 h
  refine forall_mem_foldl_mergeSet (P := (· ≠ [])) (fun {s t} hs => ?_) (fun s hs => ?_)
    fun _ ht => absurd ht List.not_mem_nil
  · obtain ⟨e, he⟩ := List.exists_mem_of_ne_nil s hs
    exact List.ne_nil_of_mem (EdgeSet.mem_union.2 (Or.inl he))
  · obtain ⟨seed, hseed, rfl⟩ := List.mem_map.1 hs
    obtain ⟨d, hd, hdseed⟩ := (mem_of_mapM_eq_ok (mapM_eq_ok_iff.2 hseeds)).1 hseed
    obtain ⟨p, hp⟩ := List.exists_mem_of_ne_nil d.edges (hne d hd)
    obtain ⟨e, he⟩ := exists_mutexSeed_iff.1 ⟨seed, hdseed⟩ p hp
    exact List.ne_nil_of_mem (subset_closeWithin ((mem_mutexSeed hdseed).2 ⟨p, hp, he⟩))

/-- **Merged groups.** In a compiled track, the declared groups and the numbers in the overlap
warnings add up to the number of mutex records, and the warnings are about the records that share
an edge with an earlier one. -/
theorem overlaps_of_compile {text : String} {o : Options} {t : Track}
    (h : (compile text o).result = .ok t) : ∃ records, readRecords text = .ok records ∧
      MergesAccounted t.graph (records.filterMap LineRecord.mutex?) t.mutexes.declaredCount
        (compile text o).overlaps := by
  obtain ⟨records, r, hs, hoverlaps⟩ := exists_overlaps_of_compile h
  have hbuild := hs.build
  rw [MutexTable.build_eq] at hbuild
  obtain ⟨sets, hsets, hofSets⟩ := Report.result_map_eq_ok_iff.1 hbuild
  have hascending : ((records.filterMap LineRecord.mutex?).map MutexDecl.line).Pairwise (· < ·) :=
    List.pairwise_map.2 <| (readRecords_eq_ok_iff.1 hs.read).ascending_filterMap
      fun _ _ => LineRecord.line_of_mutex?
  rw [hoverlaps, Report.overlaps, Graph.warnings_mutexSlots, ← Report.overlaps, ← hofSets]
  rw [hs.draws.holds.mutexes_eq] at hsets ⊢
  refine ⟨records, hs.read, ?_, hascending, Graph.lines_overlaps_sublist hsets, fun hi => ?_⟩
  · have hne := Graph.ne_nil_of_mutexSets hsets (edges_ne_nil_of_readRecords hs.read)
    have hall : sets.filter (!·.isEmpty) = sets :=
      List.filter_eq_self.2 fun s hmem => by simp [hne s hmem]
    have hlength := Graph.length_mutexSets hsets
    rw [MutexTable.declaredCount_ofSets, hall, hlength]
    simp
  · rw [hs.wellFormed.mem_overlaps_iff hsets (hascending.imp Nat.ne_of_lt) hi]
    simp

/-- Two sensors, each the reverse of the other, whose edges are guarded one by one and then
together. -/
def bridgedShuttle : String :=
  "sensor A : 0 -> B @ B : 1 -> A\nmutex A B\nmutex B A\nmutex A B : B A"

/-- The last record is merged with two groups, and one remains. -/
theorem overlaps_bridgedShuttle : ∃ t, (compile bridgedShuttle {}).result = .ok t ∧
    t.mutexes.declaredCount = 1 ∧ (compile bridgedShuttle {}).overlaps = [(4, 2)] ∧
      ∃ records, readRecords bridgedShuttle = .ok records ∧
        MergesAccounted t.graph (records.filterMap LineRecord.mutex?) t.mutexes.declaredCount
          (compile bridgedShuttle {}).overlaps := by
  have h : (compile bridgedShuttle {}).result.toOption.map (fun t => t.mutexes.declaredCount) =
      some 1 := by
    decide +kernel
  obtain ⟨t, ht, hcount⟩ := exists_of_toOption_map h
  exact ⟨t, ht, hcount, by decide +kernel, overlaps_of_compile ht⟩

end TrackPlan
