import TrackPlan.Proofs.Compile
import TrackPlan.Proofs.Failure.Linking
import TrackPlan.Proofs.Record.Reading

/-!
# Distances of no edge

A distance record that names or implies a pair which is no edge is an orphan. Of the records that
orphan one pair only the last one is left in the table, with its line; so the error is not always
about the earliest orphan (`not_earliest_orphan`), but about the earliest of these last ones.

1. `Graph.exists_measure_eq_error`: measuring fails at the first entry that has no edge.
2. `Draws.mem_table_iff`: an entry of the table is that of the last record for its pair, and
   `Draws.mem_coveredPairs_iff_orphans` tells by name which records these are.
3. `blamedOrphan_of_compile` puts these together.
-/

namespace TrackPlan

/-- The pair is no edge, and the record names it, or implies it as that of the reverses in the
opposite order. -/
def Orphans (decls : List Decl) (x : DistanceDecl) (a b : String) : Prop :=
  (a = x.src ∧ b = x.dest ∨ Reverses decls x.dest a ∧ Reverses decls x.src b) ∧ ¬ Leads decls a b

/-- The record orphans the pair, and no later one does. -/
structure LastOrphan (decls : List Decl) (xs : List DistanceDecl) (x : DistanceDecl)
    (a b : String) : Prop where
  mem : x ∈ xs
  orphans : Orphans decls x a b
  le_line : ∀ y ∈ xs, Orphans decls y a b → y.line ≤ x.line

/-- Of all last orphans, the one that the error is about: the earliest, and the pair that it names
before the one that it implies. -/
structure BlamedOrphan (decls : List Decl) (xs : List DistanceDecl) (x : DistanceDecl)
    (a b : String) : Prop where
  last : LastOrphan decls xs x a b
  line_le : ∀ y a' b', LastOrphan decls xs y a' b' → x.line ≤ y.line
  named_of_last : LastOrphan decls xs x x.src x.dest → a = x.src ∧ b = x.dest

/-- The record orphans some pair, and no earlier one does. -/
structure EarliestOrphan (decls : List Decl) (xs : List DistanceDecl) (x : DistanceDecl) :
    Prop where
  mem : x ∈ xs
  orphans : ∃ a b, Orphans decls x a b
  line_le : ∀ y ∈ xs, (∃ a b, Orphans decls y a b) → x.line ≤ y.line

/-- The earliest orphan is to blame just if it is the last one for some pair. -/
theorem BlamedOrphan.earliest_iff {decls : List Decl} {xs : List DistanceDecl} {x : DistanceDecl}
    {a b : String} (h : BlamedOrphan decls xs x a b) : EarliestOrphan decls xs x ↔
      ∃ y a' b', EarliestOrphan decls xs y ∧ LastOrphan decls xs y a' b' := by
  constructor
  · intro hx
    exact ⟨x, a, b, hx, h.last⟩
  · rintro ⟨y, a', b', hy, hlast⟩
    exact ⟨h.last.mem, ⟨a, b, h.last.orphans⟩, fun z hz ho =>
      Nat.le_trans (h.line_le y a' b' hlast) (hy.line_le z hz ho)⟩

/-! ## The order of the entries -/

namespace DistanceEntry

variable {a b c : (Nat × Nat) × DistanceEntry}

theorem line_le_of_before (h : before a b = true) : a.2.line ≤ b.2.line := by
  unfold before at h
  grind

/-- On one line, what is named comes before what is implied. -/
theorem implied_of_before (h : before a b = true) (hline : b.2.line = a.2.line)
    (ha : a.2.implied = true) : b.2.implied = true := by
  unfold before at h
  grind

end DistanceEntry

/-- Measuring a table in which some entry has no edge fails at the first such entry. -/
theorem Graph.exists_measure_eq_error {g : Graph} {t : DistanceTable}
    (h : ∃ e ∈ t, g.edgeBetween? e.1.1 e.1.2 = none) :
    ∃ e ∈ t, g.edgeBetween? e.1.1 e.1.2 = none ∧
      (g.measure (t.mergeSort DistanceEntry.before)).2.2 =
        .error (.orphanDistance e.2.line (g.nameOf e.1.1) (g.nameOf e.1.2)) ∧
      ∀ e' ∈ t, g.edgeBetween? e'.1.1 e'.1.2 = none → DistanceEntry.before e e' = true := by
  cases hm : (g.measure (t.mergeSort DistanceEntry.before)).2.2 with
  | ok u =>
    obtain ⟨e, he, hnone⟩ := h
    obtain ⟨k, hk⟩ := measure_eq_ok_iff.1 hm e (List.mem_mergeSort.2 he)
    rw [hnone] at hk
    cases hk
  | error err =>
    obtain ⟨before, pair, entry, after, hsort, hbefore, hnone, rfl⟩ := measure_eq_error_iff.1 hm
    have hmem : (pair, entry) ∈ t.mergeSort DistanceEntry.before := by rw [hsort]; simp
    have hsorted := List.pairwise_mergeSort DistanceEntry.before_trans DistanceEntry.before_total t
    rw [hsort] at hsorted
    refine ⟨(pair, entry), List.mem_mergeSort.1 hmem, hnone, rfl, fun e' he' hnone' => ?_⟩
    have he' : e' ∈ t.mergeSort DistanceEntry.before := List.mem_mergeSort.2 he'
    rw [hsort] at he'
    rcases List.mem_append.1 he' with he' | he'
    · obtain ⟨k, hk⟩ := hbefore e' he'
      rw [hnone'] at hk
      cases hk
    · rcases List.mem_cons.1 he' with rfl | he'
      · simpa using DistanceEntry.before_total (pair, entry) (pair, entry)
      · exact (List.pairwise_cons.1 (List.pairwise_append.1 hsorted).2.1).1 e' he'

/-! ## The records of the entries -/

namespace Registry

variable {r : Registry} {g : Graph} {records : List LineRecord} {t : DistanceTable}
  {xs : List DistanceDecl} {x : DistanceDecl} {p q pair : Nat × Nat} {entry : DistanceEntry}
  {a b : String} {i j : Nat}

/-- The entry of a pair is that of the last record that covers it. -/
theorem Draws.mem_table_iff (hd : r.Draws g records)
    (ht : (r.distanceTable g.places).result = .ok t)
    (hlines : r.distances.Pairwise fun x y => x.line < y.line) : (pair, entry) ∈ t ↔
      ∃ x ∈ r.distances, pair ∈ g.coveredPairs x ∧
        (∀ y ∈ r.distances, pair ∈ g.coveredPairs y → y.line ≤ x.line) ∧
          entry = g.entryFor x pair := by
  have hkeys : t.keys.Nodup := keys_nodup_gatherDistances (t := []) List.nodup_nil ht
  have hone : ∀ p (x y : DistanceEntry), (p, x) ∈ t → (p, y) ∈ t → x = y := fun p x y hx hy =>
    congrArg Prod.snd (List.inj_on_of_nodup_map hkeys hx hy rfl)
  have hlast := hd.lookup_gatherDistances ht pair
  rw [show List.lookup pair ([] : DistanceTable) = none from rfl, Option.or_none] at hlast
  rw [← lookup_eq_some_iff_mem hone, hlast, Option.map_eq_some_iff]
  simp only [getLast?_eq_some_iff_of_pairwise (hlines.filter _), List.mem_filter,
    decide_eq_true_eq, and_imp, and_assoc]
  constructor
  · rintro ⟨x, hx, hpair, hle, rfl⟩
    exact ⟨x, hx, hpair, hle, rfl⟩
  · rintro ⟨x, hx, hpair, hle, rfl⟩
    exact ⟨x, hx, hpair, hle, rfl⟩

/-- A pair that is no edge is covered by the records that orphan it. -/
theorem Draws.mem_coveredPairs_iff_orphans (h : r.Draws g records)
    (hpq : r.coveredPairs g.places x = .ok (p, q)) (ha : g.nodeId? a = some i)
    (hb : g.nodeId? b = some j) (hn : ¬ g.Follows i j) :
    (i, j) ∈ g.coveredPairs x ↔ Orphans (declsOf records) x a b := by
  have hleads : ¬ Leads (declsOf records) a b := mt (h.leads_iff_follows ha hb).1 hn
  rw [h.mem_coveredPairs_iff hpq]
  constructor
  · intro hpair
    obtain ⟨a', b', ha', hb', hab⟩ := h.exists_names_of_coveredPairs hpq hpair hn
    obtain rfl := h.nodeId?_inj ha' ha
    obtain rfl := h.nodeId?_inj hb' hb
    exact ⟨hab, hleads⟩
  · rintro ⟨hab, -⟩
    obtain ⟨k, l, k', l', hk, hl, hrk, hrl, rfl, hq⟩ := h.coveredPairs_eq_ok.1 hpq
    rcases hab with ⟨rfl, rfl⟩ | ⟨hra, hrb⟩
    · rw [ha, Option.some.injEq] at hk
      rw [hb, Option.some.injEq] at hl
      rw [hk, hl]
      exact Or.inl rfl
    · rw [h.reverses_iff_reverse? hl ha, hrl, Option.some.injEq] at hra
      rw [h.reverses_iff_reverse? hk hb, hrk, Option.some.injEq] at hrb
      subst hra hrb
      rcases hq with ⟨⟨heq, -⟩, -⟩ | ⟨-, rfl⟩
      · exact Or.inl heq
      · exact Or.inr rfl

/-- An entry without an edge is that of the last record that orphans its pair. -/
theorem Draws.mem_table_iff_lastOrphan (hd : r.Draws g records)
    (ht : (r.distanceTable g.places).result = .ok t)
    (hlines : r.distances.Pairwise fun x y => x.line < y.line) (ha : g.nodeId? a = some i)
    (hb : g.nodeId? b = some j) (hn : ¬ g.Follows i j) : ((i, j), entry) ∈ t ↔
      ∃ x, LastOrphan (declsOf records) r.distances x a b ∧ entry = g.entryFor x (i, j) := by
  have hcovers : ∀ x ∈ r.distances,
      ((i, j) ∈ g.coveredPairs x ↔ Orphans (declsOf records) x a b) := by
    intro x hx
    obtain ⟨⟨p, q⟩, hpq⟩ := exists_gatherDistances_iff.1 ⟨t, ht⟩ x hx
    exact hd.mem_coveredPairs_iff_orphans hpq ha hb hn
  rw [hd.mem_table_iff ht hlines]
  constructor
  · rintro ⟨x, hx, hpair, hle, rfl⟩
    exact ⟨x, ⟨hx, (hcovers x hx).1 hpair, fun y hy ho => hle y hy ((hcovers y hy).2 ho)⟩, rfl⟩
  · rintro ⟨x, ⟨hx, ho, hle⟩, rfl⟩
    exact ⟨x, hx, (hcovers x hx).2 ho, fun y hy hpair => hle y hy ((hcovers y hy).1 hpair), rfl⟩

/-- The nodes of an orphaned pair. -/
theorem Draws.exists_nodes_of_orphans (hd : r.Draws g records)
    (hx : Declared (declsOf records) x.src ∧ Declared (declsOf records) x.dest)
    (ho : Orphans (declsOf records) x a b) :
    ∃ i j, g.nodeId? a = some i ∧ g.nodeId? b = some j ∧ ¬ g.Follows i j := by
  have hreverse : ∀ {s s' : String}, Reverses (declsOf records) s s' →
      Declared (declsOf records) s' := by
    rintro s s' ⟨d, hd, -, rfl⟩
    obtain ⟨d', hd', hop⟩ := exists_opposed hd
    exact hop.reverse_eq ▸ List.mem_map_of_mem hd'
  have hab : Declared (declsOf records) a ∧ Declared (declsOf records) b := by
    rcases ho.1 with ⟨rfl, rfl⟩ | ⟨hra, hrb⟩
    · exact hx
    · exact ⟨hreverse hra, hreverse hrb⟩
  obtain ⟨i, ha⟩ := hd.exists_nodeId?_iff.2 hab.1
  obtain ⟨j, hb⟩ := hd.exists_nodeId?_iff.2 hab.2
  exact ⟨i, j, ha, hb, mt (hd.leads_iff_follows ha hb).2 ho.2⟩

/-- The table has an entry for every orphaned pair. -/
theorem Draws.exists_entry_of_lastOrphan (hd : r.Draws g records)
    (ht : (r.distanceTable g.places).result = .ok t)
    (hlines : r.distances.Pairwise fun x y => x.line < y.line)
    (hends : Declared (declsOf records) x.src ∧ Declared (declsOf records) x.dest)
    (hx : LastOrphan (declsOf records) r.distances x a b) : ∃ i j, g.nodeId? a = some i ∧
      g.nodeId? b = some j ∧ g.edgeBetween? i j = none ∧ ((i, j), g.entryFor x (i, j)) ∈ t := by
  obtain ⟨i, j, ha, hb, hn⟩ := hd.exists_nodes_of_orphans hends hx.orphans
  exact ⟨i, j, ha, hb, hd.wellFormed.edgeBetween?_eq_none_iff.2 hn,
    (hd.mem_table_iff_lastOrphan ht hlines ha hb hn).2 ⟨x, hx, rfl⟩⟩

/-- Of the entries of one record, the one for the pair that it names comes first. -/
theorem Draws.eq_named_of_before (hd : r.Draws g records)
    (hpq : r.coveredPairs g.places x = .ok (p, q)) (hpair : pair ∈ g.coveredPairs x)
    (h : DistanceEntry.before (pair, g.entryFor x pair) (p, g.entryFor x p) = true) :
    pair = p := by
  have himplied : ∀ pair, (g.entryFor x pair).implied = true ↔ q = pair := by
    intro pair
    unfold Graph.entryFor
    rw [hd.coveredPairs_eq hpq]
    simp
  rcases (hd.mem_coveredPairs_iff hpq).1 hpair with rfl | rfl
  · rfl
  · exact (himplied p).1 (DistanceEntry.implied_of_before h rfl ((himplied pair).2 rfl))

theorem Draws.exists_entry_of_orphans (hd : r.Draws g records)
    (ht : (r.distanceTable g.places).result = .ok t)
    (hends : ∀ x ∈ r.distances,
      Declared (declsOf records) x.src ∧ Declared (declsOf records) x.dest)
    (horphan : ∃ x ∈ r.distances, ∃ a b, Orphans (declsOf records) x a b) :
    ∃ e ∈ t, g.edgeBetween? e.1.1 e.1.2 = none := by
  obtain ⟨x, hx, a, b, ho⟩ := horphan
  obtain ⟨i, j, ha, hb, hn⟩ := hd.exists_nodes_of_orphans (hends x hx) ho
  obtain ⟨⟨p, q⟩, hpq⟩ := exists_gatherDistances_iff.1 ⟨t, ht⟩ x hx
  have hpair := (hd.mem_coveredPairs_iff hpq).1
    ((hd.mem_coveredPairs_iff_orphans hpq ha hb hn).2 ho)
  have hkey : (i, j) ∈ t.keys :=
    (mem_keys_gatherDistances ht).2 (Or.inr ⟨x, hx, p, q, hpq, hpair⟩)
  obtain ⟨e, he, hfst⟩ := List.mem_map.1 hkey
  refine ⟨e, he, ?_⟩
  rw [hfst]
  exact hd.wellFormed.edgeBetween?_eq_none_iff.2 hn

theorem Draws.exists_names_of_mem_table (hd : r.Draws g records)
    (ht : (r.distanceTable g.places).result = .ok t)
    (hlines : r.distances.Pairwise fun x y => x.line < y.line) (hmem : ((i, j), entry) ∈ t)
    (hn : ¬ g.Follows i j) : ∃ a b, g.nodeId? a = some i ∧ g.nodeId? b = some j := by
  obtain ⟨x, hx, hpair, -⟩ := (hd.mem_table_iff ht hlines).1 hmem
  obtain ⟨⟨p, q⟩, hpq⟩ := exists_gatherDistances_iff.1 ⟨t, ht⟩ x hx
  obtain ⟨a, b, ha, hb, -⟩ :=
    hd.exists_names_of_coveredPairs hpq ((hd.mem_coveredPairs_iff hpq).1 hpair) hn
  exact ⟨a, b, ha, hb⟩

/-- If there are orphans, measuring fails because of the one to blame. -/
theorem Draws.exists_blamedOrphan (hd : r.Draws g records)
    (ht : (r.distanceTable g.places).result = .ok t)
    (hlines : r.distances.Pairwise fun x y => x.line < y.line)
    (hends : ∀ x ∈ r.distances,
      Declared (declsOf records) x.src ∧ Declared (declsOf records) x.dest)
    (horphan : ∃ x ∈ r.distances, ∃ a b, Orphans (declsOf records) x a b) :
    ∃ x a b, BlamedOrphan (declsOf records) r.distances x a b ∧
      (g.measure (t.mergeSort DistanceEntry.before)).2.2 =
        .error (.orphanDistance x.line a b) := by
  obtain ⟨⟨⟨i, j⟩, entry⟩, hmem, hnone, hmeasure, hfirst⟩ :=
    Graph.exists_measure_eq_error (hd.exists_entry_of_orphans ht hends horphan)
  have hn : ¬ g.Follows i j := hd.wellFormed.edgeBetween?_eq_none_iff.1 hnone
  obtain ⟨a, b, ha, hb⟩ := hd.exists_names_of_mem_table ht hlines hmem hn
  obtain ⟨x, hx, rfl⟩ := (hd.mem_table_iff_lastOrphan ht hlines ha hb hn).1 hmem
  refine ⟨x, a, b, ⟨hx, fun y a' b' hy => ?_, fun hnamed => ?_⟩, ?_⟩
  · obtain ⟨i', j', -, -, hnone', hmem'⟩ :=
      hd.exists_entry_of_lastOrphan ht hlines (hends y hy.mem) hy
    exact DistanceEntry.line_le_of_before (hfirst _ hmem' hnone')
  · obtain ⟨i', j', ha', hb', hnone', hmem'⟩ :=
      hd.exists_entry_of_lastOrphan ht hlines (hends x hx.mem) hnamed
    obtain ⟨⟨p, q⟩, hpq⟩ := exists_gatherDistances_iff.1 ⟨t, ht⟩ x hx.mem
    obtain ⟨k, l, -, -, hk, hl, -, -, rfl, -⟩ := hd.coveredPairs_eq_ok.1 hpq
    cases hk.symm.trans ha'
    cases hl.symm.trans hb'
    have hpair := (hd.mem_coveredPairs_iff_orphans hpq ha hb hn).2 hx.orphans
    cases hd.eq_named_of_before hpq hpair (hfirst _ hmem' hnone')
    exact ⟨hd.nodeId?_inj ha hk, hd.nodeId?_inj hb hl⟩
  · rw [hmeasure, hd.nameOf_eq ha, hd.nameOf_eq hb]
    rfl

end Registry

variable {text : String} {o : Options} {records : List LineRecord} {r : Registry}

/-- **Orphans.** If some distance record orphans a pair in a text whose records are registered,
within the limits and with all names declared, then compiling fails because of an orphan. It is
the earliest of those that are the last record to orphan some pair. -/
theorem blamedOrphan_of_compile (hread : readRecords text = .ok records)
    (hr : Registry.ofRecords records = .ok r) (hcap : r.checkCapacity o = .ok ())
    (hnodes : ∀ d ∈ declsOf records, ∀ s ∈ d.kind.successors, Declared (declsOf records) s)
    (hends : ∀ x ∈ records.filterMap LineRecord.distance?,
      Declared (declsOf records) x.src ∧ Declared (declsOf records) x.dest)
    (horphan : ∃ x ∈ records.filterMap LineRecord.distance?, ∃ a b,
      Orphans (declsOf records) x a b) :
    ∃ x a b, (compile text o).result = .error (.orphanDistance x.line a b) ∧
      BlamedOrphan (declsOf records) (records.filterMap LineRecord.distance?) x a b ∧
      (EarliestOrphan (declsOf records) (records.filterMap LineRecord.distance?) x ↔
        ∃ y a' b', EarliestOrphan (declsOf records) (records.filterMap LineRecord.distance?) y ∧
          LastOrphan (declsOf records) (records.filterMap LineRecord.distance?) y a' b') := by
  have hv := (Registry.reachable_ofRecords hr).valid
  have hh := Registry.holds_ofRecords hr
  obtain ⟨g, hg⟩ := (hh.exists_wire_iff hv).2 hnodes
  have hd : r.Draws g records := ⟨hv, hh, Registry.wires_of_wire hg⟩
  rw [← hh.distances_eq] at hends horphan ⊢
  obtain ⟨t, ht⟩ : ∃ t, (r.distanceTable g.places).result = .ok t :=
    Registry.exists_gatherDistances_iff.2 fun x hx => hd.exists_coveredPairs_iff.2 (hends x hx)
  have hlines : r.distances.Pairwise fun x y => x.line < y.line := by
    rw [hh.distances_eq]
    exact (readRecords_eq_ok_iff.1 hread).ascending_filterMap
      fun _ _ => LineRecord.line_of_distance?
  obtain ⟨x, a, b, hblamed, hmeasure⟩ := hd.exists_blamedOrphan ht hlines hends horphan
  refine ⟨x, a, b, ?_, hblamed, hblamed.earliest_iff⟩
  have hattach : (g.attach t o.requireDistances).2.result =
      .error (.orphanDistance x.line a b) :=
    Report.result_bind_eq_error_iff.2 (Or.inl hmeasure)
  refine compile_eq_error_iff.2 (Or.inr ⟨records, hread, Or.inr ⟨r, hr, ?_⟩⟩)
  exact Registry.compile_eq_error_iff.2 (Or.inl (Registry.link_eq_error_iff.2
    (Or.inr ⟨hcap, Or.inr ⟨g, hg, Or.inr ⟨t, ht, hattach⟩⟩⟩)))

/-- Two sensors, each the reverse of the other, with two distances from one of them to itself. -/
def twiceOrphaned : String := "sensor A : 0 -> B @ B : 1 -> A\ndist A A 5mm\ndist A A 7mm"

def twiceOrphanedRecords : List LineRecord :=
  [⟨1, .sensors ⟨"A", 0, "B"⟩ ⟨"B", 1, "A"⟩⟩, ⟨2, .distance "A" "A" 5⟩, ⟨3, .distance "A" "A" 7⟩]

theorem readRecords_twiceOrphaned : readRecords twiceOrphaned = .ok twiceOrphanedRecords := by
  decide +kernel

theorem exists_registry_twiceOrphaned : ∃ r, Registry.ofRecords twiceOrphanedRecords = .ok r ∧
    r.checkCapacity {} = .ok () := by
  have h : (Registry.ofRecords twiceOrphanedRecords).toOption.map (·.checkCapacity {}) =
      some (.ok ()) := by
    decide +kernel
  exact exists_of_toOption_map h

theorem declared_twiceOrphaned :
    (∀ d ∈ declsOf twiceOrphanedRecords, ∀ s ∈ d.kind.successors,
      Declared (declsOf twiceOrphanedRecords) s) ∧
    ∀ x ∈ twiceOrphanedRecords.filterMap LineRecord.distance?,
      Declared (declsOf twiceOrphanedRecords) x.src ∧
        Declared (declsOf twiceOrphanedRecords) x.dest := by
  unfold Declared
  decide

theorem result_twiceOrphaned :
    (compile twiceOrphaned {}).result = .error (.orphanDistance 3 "A" "A") := by
  rw [compile_eq_inserting]
  decide +kernel

/-- Nothing leads from the sensor to itself. -/
theorem orphans_twiceOrphaned :
    Orphans (declsOf twiceOrphanedRecords) ⟨"A", "A", 5, 2⟩ "A" "A" := by
  refine ⟨Or.inl ⟨rfl, rfl⟩, ?_⟩
  unfold Leads
  decide

/-- Both distances are orphans of the same pairs, so the second one is to blame. -/
theorem blamedOrphan_twiceOrphaned : ∃ r, readRecords twiceOrphaned = .ok twiceOrphanedRecords ∧
    Registry.ofRecords twiceOrphanedRecords = .ok r ∧ r.checkCapacity {} = .ok () ∧
      (compile twiceOrphaned {}).result = .error (.orphanDistance 3 "A" "A") ∧
      BlamedOrphan (declsOf twiceOrphanedRecords)
        (twiceOrphanedRecords.filterMap LineRecord.distance?) ⟨"A", "A", 7, 3⟩ "A" "A" ∧
      (EarliestOrphan (declsOf twiceOrphanedRecords)
          (twiceOrphanedRecords.filterMap LineRecord.distance?) ⟨"A", "A", 7, 3⟩ ↔
        ∃ y a' b', EarliestOrphan (declsOf twiceOrphanedRecords)
            (twiceOrphanedRecords.filterMap LineRecord.distance?) y ∧
          LastOrphan (declsOf twiceOrphanedRecords)
            (twiceOrphanedRecords.filterMap LineRecord.distance?) y a' b') := by
  obtain ⟨r, hr, hcap⟩ := exists_registry_twiceOrphaned
  obtain ⟨x, a, b, h, hblamed, hearliest⟩ := blamedOrphan_of_compile readRecords_twiceOrphaned hr
    hcap declared_twiceOrphaned.1 declared_twiceOrphaned.2
    ⟨⟨"A", "A", 5, 2⟩, by decide, "A", "A", orphans_twiceOrphaned⟩
  have hpair : x.line = 3 ∧ a = "A" ∧ b = "A" := by
    rw [result_twiceOrphaned] at h
    injection h with h
    injection h with hline ha hb
    exact ⟨hline.symm, ha.symm, hb.symm⟩
  obtain ⟨hline, rfl, rfl⟩ := hpair
  have hx : ∀ x ∈ twiceOrphanedRecords.filterMap LineRecord.distance?,
      x.line = 3 → x = ⟨"A", "A", 7, 3⟩ := by
    decide
  cases hx x hblamed.last.mem hline
  exact ⟨r, readRecords_twiceOrphaned, hr, hcap, h, hblamed, hearliest⟩

/-- An orphan is not always reported on the line of the earliest one. -/
theorem not_earliest_orphan : ¬ ∀ (text : String) (o : Options) (records : List LineRecord)
    (r : Registry), readRecords text = .ok records → Registry.ofRecords records = .ok r →
    r.checkCapacity o = .ok () →
    (∀ d ∈ declsOf records, ∀ s ∈ d.kind.successors, Declared (declsOf records) s) →
    (∀ x ∈ records.filterMap LineRecord.distance?,
      Declared (declsOf records) x.src ∧ Declared (declsOf records) x.dest) →
    ∀ x, EarliestOrphan (declsOf records) (records.filterMap LineRecord.distance?) x →
      ∃ a b, (compile text o).result = .error (.orphanDistance x.line a b) := by
  intro hclaim
  obtain ⟨r, hr, hcap⟩ := exists_registry_twiceOrphaned
  have hearliest : EarliestOrphan (declsOf twiceOrphanedRecords)
      (twiceOrphanedRecords.filterMap LineRecord.distance?) ⟨"A", "A", 5, 2⟩ := by
    have hlines : ∀ y ∈ twiceOrphanedRecords.filterMap LineRecord.distance?, 2 ≤ y.line := by
      decide
    exact ⟨by decide, ⟨"A", "A", orphans_twiceOrphaned⟩, fun y hy _ => hlines y hy⟩
  obtain ⟨a, b, h⟩ := hclaim twiceOrphaned {} twiceOrphanedRecords r readRecords_twiceOrphaned hr
    hcap declared_twiceOrphaned.1 declared_twiceOrphaned.2 _ hearliest
  rw [result_twiceOrphaned] at h
  cases h

end TrackPlan
