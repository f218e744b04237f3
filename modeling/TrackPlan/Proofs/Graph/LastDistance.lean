import TrackPlan.Proofs.Compile
import TrackPlan.Proofs.Graph.Covering

/-!
# The last distance counts

A distance record covers the pair of nodes that it names, and the pair of their reverses in the
opposite order (`Graph.coveredPairs`). Of the records that cover a pair, the last one gives the
distance of the edge between the two nodes (`Graph.lastDistance`).

1. `lookup_gatherDistances`: the table has what the last record says of every pair.
2. `edge?_measure`: measuring gives the distances of the table to the edges that a look-up finds.
3. `lastDistance_of_compile` puts them together.
-/

namespace TrackPlan

/-! ## What records say of a pair of nodes -/

namespace Graph

/-- The nodes that follow a node, in slot order. -/
def successors (g : Graph) (id : Nat) : List Nat :=
  ((g.node? id).map (·.kind.successors)).getD []

/-- The pairs of nodes that a distance covers: the one that it names, and the reverses in the
opposite order. Where these are one pair and there is a way back, it covers the way back instead. -/
def coveredPairs (g : Graph) (x : DistanceDecl) : List (Nat × Nat) :=
  let pairs? := do
    let src ← g.nodeId? x.src
    let dest ← g.nodeId? x.dest
    let src' ← g.reverse? src
    let dest' ← g.reverse? dest
    return [(src, dest),
      if (dest', src') = (src, dest) ∧ src ∈ g.successors dest then (dest, src) else (dest', src')]
  pairs?.getD []

/-- What a record says of a pair that it covers. -/
def entryFor (g : Graph) (x : DistanceDecl) (pair : Nat × Nat) : DistanceEntry :=
  ⟨x.millimeters, x.line, (g.coveredPairs x).getLast? = some pair⟩

/-- The distance that the last of the records covering a pair gives, 0 if none covers it. -/
def lastDistance (g : Graph) (xs : List DistanceDecl) (pair : Nat × Nat) : UInt32 :=
  ((xs.filter (pair ∈ g.coveredPairs ·)).getLast?.map DistanceDecl.millimeters).getD 0

variable {g : Graph} {x : DistanceDecl} {a b : Nat}

theorem WellFormed.mem_successors_iff (hg : g.WellFormed) :
    b ∈ g.successors a ↔ g.Follows a b := by
  unfold successors
  cases hn : g.node? a with
  | none =>
    refine iff_of_false (by simp) fun h => ?_
    obtain ⟨n, hn'⟩ := WellFormed.exists_node (WellFormed.Follows.src_lt hg h)
    rw [hn] at hn'
    cases hn'
  | some n =>
    rw [hg.follows_iff hn]
    rfl

theorem mem_coveredPairs_iff {pair : Nat × Nat} : pair ∈ g.coveredPairs x ↔
    ∃ i j i' j', g.nodeId? x.src = some i ∧ g.nodeId? x.dest = some j ∧
      g.reverse? i = some i' ∧ g.reverse? j = some j' ∧ (pair = (i, j) ∨
        pair = if (j', i') = (i, j) ∧ i ∈ g.successors j then (j, i) else (j', i')) := by
  have hget : ∀ pairs? : Option (List (Nat × Nat)),
      pair ∈ pairs?.getD [] ↔ ∃ pairs, pairs? = some pairs ∧ pair ∈ pairs := by
    intro pairs?
    cases pairs? <;> simp
  unfold coveredPairs
  dsimp only
  rw [hget]
  simp only [Option.bind_eq_bind, Option.bind_eq_some_iff, Option.pure_def, Option.some.injEq]
  constructor
  · intro h
    obtain ⟨_, ⟨i, hi, j, hj, i', hi', j', hj', rfl⟩, hpair⟩ := h
    exact ⟨i, j, i', j', hi, hj, hi', hj', by simpa using hpair⟩
  · intro h
    obtain ⟨i, j, i', j', hi, hj, hi', hj', hpair⟩ := h
    exact ⟨_, ⟨i, hi, j, hj, i', hi', j', hj', rfl⟩, by simpa using hpair⟩

end Graph

variable {r : Registry} {g : Graph} {records : List LineRecord} {t t' : DistanceTable}
  {xs : List DistanceDecl} {x : DistanceDecl} {p q pair : Nat × Nat} {k : Nat} {e : Edge}

/-- The pairs of a record are found as the ones that it covers: the named one, then the implied. -/
theorem Registry.Draws.coveredPairs_eq (h : r.Draws g records)
    (hx : r.coveredPairs g.places x = .ok (p, q)) : g.coveredPairs x = [p, q] := by
  obtain ⟨i, j, i', j', hi, hj, hri, hrj, rfl, hq⟩ := h.coveredPairs_eq_ok.1 hx
  rw [h.leads_iff_follows hj hi, ← h.wellFormed.mem_successors_iff] at hq
  have himplied : q = if (j', i') = (i, j) ∧ i ∈ g.successors j then (j, i) else (j', i') := by
    rcases hq with ⟨hc, rfl⟩ | ⟨hc, rfl⟩
    · rw [if_pos hc]
    · rw [if_neg hc]
  unfold Graph.coveredPairs
  rw [hi, hj, himplied]
  simp only [Option.bind_eq_bind, Option.bind_some, hri, hrj]
  rfl

theorem Registry.Draws.mem_coveredPairs_iff (h : r.Draws g records)
    (hx : r.coveredPairs g.places x = .ok (p, q)) :
    pair ∈ g.coveredPairs x ↔ pair = p ∨ pair = q := by
  rw [h.coveredPairs_eq hx, List.mem_pair]

/-! ## The table has the last distance of every pair -/

namespace DistanceTable

/-- The distance that the table has for a pair. -/
def millimeters? (t : DistanceTable) (pair : Nat × Nat) : Option UInt32 :=
  (t.lookup pair).map DistanceEntry.millimeters

theorem millimeters?_cons {entry : DistanceEntry} :
    millimeters? ((p, entry) :: t) pair =
      if pair = p then some entry.millimeters else t.millimeters? pair := by
  unfold millimeters?
  rw [List.lookup_cons]
  by_cases h : pair = p
  · simp [h]
  · rw [beq_false_of_ne h, if_neg h]

theorem millimeters?_eq_none (h : pair ∉ t.keys) : t.millimeters? pair = none := by
  unfold millimeters?
  rw [Option.map_eq_none_iff, List.lookup_eq_none_iff]
  intro entry hentry
  rw [bne_iff_ne]
  rintro rfl
  exact h (List.mem_map_of_mem hentry)

theorem keys_nodup_insert (h : t.keys.Nodup) (entry : DistanceEntry) :
    (t.insert p entry).keys.Nodup := by
  unfold keys insert at *
  rw [List.map_append, List.nodup_append]
  refine ⟨h.sublist (List.filter_sublist.map _), List.nodup_singleton _, ?_⟩
  rintro _ hq _ hp rfl
  obtain ⟨e, he, rfl⟩ := List.mem_map.1 hq
  have hne := (List.mem_filter.1 he).2
  rw [List.map_singleton, List.mem_singleton] at hp
  simp [hp] at hne

end DistanceTable

namespace Registry

theorem keys_nodup_gatherDistances {places : List (String × Nat)} (ht : t.keys.Nodup)
    (h : (r.gatherDistances places t xs).result = .ok t') : t'.keys.Nodup := by
  induction xs generalizing t with
  | nil =>
    cases h
    exact ht
  | cons x rest ih =>
    obtain ⟨p, q, -, hrest⟩ := gatherDistances_cons.1 h
    exact ih (DistanceTable.keys_nodup_insert (DistanceTable.keys_nodup_insert ht _) _) hrest

/-- The step: a record gives its entry to the pairs that it covers, what it implies after what it
names. -/
theorem Draws.lookup_insert (hd : r.Draws g records)
    (hx : r.coveredPairs g.places x = .ok (p, q)) (t : DistanceTable) (pair : Nat × Nat) :
    ((t.insert p ⟨x.millimeters, x.line, false⟩).insert q
      ⟨x.millimeters, x.line, true⟩).lookup pair =
        if pair ∈ g.coveredPairs x then some (g.entryFor x pair) else t.lookup pair := by
  have hentry : g.entryFor x pair = ⟨x.millimeters, x.line, pair = q⟩ := by
    unfold Graph.entryFor
    rw [hd.coveredPairs_eq hx]
    simp [eq_comm]
  rw [DistanceTable.lookup_insert, DistanceTable.lookup_insert, hentry]
  simp only [hd.mem_coveredPairs_iff hx]
  by_cases hq : pair = q
  · simp [hq]
  · by_cases hp : pair = p
    · rw [if_neg hq, if_pos hp, if_pos (Or.inl hp), decide_eq_false hq]
    · rw [if_neg hq, if_neg hp, if_neg (not_or.2 ⟨hp, hq⟩)]

/-- The run: the last of the gathered records that cover a pair gives its entry. -/
theorem Draws.lookup_gatherDistances (hd : r.Draws g records)
    (h : (r.gatherDistances g.places t xs).result = .ok t') (pair : Nat × Nat) :
    t'.lookup pair =
      ((xs.filter (pair ∈ g.coveredPairs ·)).getLast?.map (g.entryFor · pair)).or
        (t.lookup pair) := by
  induction xs generalizing t with
  | nil =>
    cases h
    rfl
  | cons x rest ih =>
    obtain ⟨p, q, hx, hrest⟩ := gatherDistances_cons.1 h
    rw [ih hrest, hd.lookup_insert hx]
    by_cases hpair : pair ∈ g.coveredPairs x
    · rw [List.filter_cons_of_pos (by simpa using hpair), List.getLast?_cons, if_pos hpair]
      cases (rest.filter (pair ∈ g.coveredPairs ·)).getLast? <;> simp
    · rw [List.filter_cons_of_neg (by simpa using hpair), if_neg hpair]

/-- The last of the gathered records that cover a pair gives its distance. -/
theorem Draws.millimeters?_gatherDistances (hd : r.Draws g records)
    (h : (r.gatherDistances g.places t xs).result = .ok t') (pair : Nat × Nat) :
    t'.millimeters? pair =
      ((xs.filter (pair ∈ g.coveredPairs ·)).getLast?.map DistanceDecl.millimeters).or
        (t.millimeters? pair) := by
  unfold DistanceTable.millimeters?
  rw [hd.lookup_gatherDistances h, Option.map_or, Option.map_map]
  rfl

end Registry

/-! ## Measuring gives the distances of the table to the edges -/

namespace Graph

variable {entries : DistanceTable}

theorem edgeBetween?_measure {a b : Nat} :
    (g.measure entries).1.edgeBetween? a b = g.edgeBetween? a b := by
  induction entries generalizing g with
  | nil => rfl
  | cons entry rest ih =>
    obtain ⟨⟨src, dest⟩, entry⟩ := entry
    unfold measure
    split
    · rfl
    · exact ih.trans (edgeBetween?_setDistance _ _)

/-- The distance of an edge after measuring: that of the table if the edge is found by its nodes. -/
def measuredAs (g : Graph) (entries : DistanceTable) (k : Nat) (e : Edge) : UInt32 :=
  if g.edgeBetween? e.src e.dest = some k then
    (entries.millimeters? (e.src, e.dest)).getD e.distance
  else e.distance

end Graph

/-- The run: every entry gives its distance to its edge, and nothing else of an edge changes. -/
theorem Registry.Wires.edge?_measure {entries : DistanceTable} (hw : r.Wires g) (hv : r.Valid)
    (hkeys : entries.keys.Nodup) (h : (g.measure entries).2.2 = .ok ()) :
    (g.measure entries).1.edge? k =
      (g.edge? k).map fun e => { e with distance := g.measuredAs entries k e } := by
  induction entries generalizing g with
  | nil =>
    cases he : g.edge? k <;> simp [Graph.measure, Graph.measuredAs, DistanceTable.millimeters?, he]
  | cons entry rest ih =>
    obtain ⟨⟨a, b⟩, entry⟩ := entry
    obtain ⟨⟨j, hj⟩, -⟩ := List.forall_mem_cons.1 (Graph.measure_eq_ok_iff.1 h)
    have hj : g.edgeBetween? a b = some j := hj
    obtain ⟨hfresh, hrest⟩ := List.nodup_cons.1 hkeys
    unfold Graph.measure at h ⊢
    rw [hj] at h ⊢
    dsimp only at h ⊢
    rw [ih (hw.setDistance j entry.millimeters) hrest h, Graph.edge?_setDistance]
    cases he : g.edge? k with
    | none => rfl
    | some e =>
      simp only [Option.map_some, Option.some.injEq]
      unfold Graph.measuredAs
      rw [Graph.edgeBetween?_setDistance, DistanceTable.millimeters?_cons]
      by_cases hjk : j = k
      · -- the edge of this entry, of which the later entries say nothing
        subst hjk
        obtain ⟨f, hf, rfl, rfl⟩ := (hw.wellFormed hv).edge_of_edgeBetween? hj
        rw [he, Option.some.injEq] at hf
        subst hf
        rw [if_pos rfl]
        simp [hj, DistanceTable.millimeters?_eq_none hfresh]
      · rw [if_neg hjk]
        by_cases hk : g.edgeBetween? e.src e.dest = some k
        · have hne : (e.src, e.dest) ≠ (a, b) := by
            rintro heq
            cases heq
            rw [hj, Option.some.injEq] at hk
            exact hjk hk
          rw [if_neg hne]
        · rw [if_neg hk, if_neg hk]

namespace Registry

/-- Before distances are attached, there are none. -/
theorem distance_of_wire (h : r.wire = .ok g) (he : g.edge? k = some e) : e.distance = 0 := by
  obtain ⟨nodes, -, rfl⟩ := wire_eq_ok.1 h
  obtain ⟨src, slot, dest, -, rfl⟩ := layEdges_eq_some_iff.1 he
  rfl

/-- The distances of a linked graph are those of the table. -/
theorem distance_of_link {o : Options} (hv : r.Valid) (h : (r.link o).result = .ok g) :
    ∃ t, (r.distanceTable g.places).result = .ok t ∧ ∀ k e, g.edge? k = some e →
      e.distance = if g.edgeBetween? e.src e.dest = some k then
        (t.millimeters? (e.src, e.dest)).getD 0 else 0 := by
  have hplaces := (wires_of_link h).places_eq
  obtain ⟨-, g₀, hg₀, t, ht, hok, rfl⟩ := link_eq_ok.1 h
  have hw := wires_of_wire hg₀
  refine ⟨t, by rw [hplaces, ← hw.places_eq, ht], fun k e he => ?_⟩
  have hkeys : t.keys.Nodup := keys_nodup_gatherDistances (t := []) List.nodup_nil ht
  have hperm := List.mergeSort_perm t DistanceEntry.before
  have hmeasured : (g₀.measure (t.mergeSort DistanceEntry.before)).2.2 = .ok () :=
    (Report.result_then_eq_ok_iff.1 hok).1
  have he : (g₀.measure (t.mergeSort DistanceEntry.before)).1.edge? k = some e := he
  rw [hw.edge?_measure hv ((hperm.map Prod.fst).nodup_iff.2 hkeys) hmeasured] at he
  obtain ⟨e₀, he₀, rfl⟩ := Option.map_eq_some_iff.1 he
  have hsame : DistanceTable.millimeters? (t.mergeSort DistanceEntry.before) (e₀.src, e₀.dest) =
      t.millimeters? (e₀.src, e₀.dest) := by
    unfold DistanceTable.millimeters?
    rw [lookup_eq_of_perm hperm.symm hkeys]
  show g₀.measuredAs (t.mergeSort DistanceEntry.before) k e₀ = _
  unfold Graph.measuredAs
  rw [hsame, distance_of_wire hg₀ he₀]
  show _ = if (g₀.measure (t.mergeSort DistanceEntry.before)).1.edgeBetween? e₀.src e₀.dest =
    some k then (t.millimeters? (e₀.src, e₀.dest)).getD 0 else 0
  rw [Graph.edgeBetween?_measure]

/-- An edge that a look-up finds has the last distance of its two nodes. -/
theorem Draws.distance_eq (hd : r.Draws g records) {o : Options} (h : (r.link o).result = .ok g)
    (he : g.edge? k = some e) : e.distance = if g.edgeBetween? e.src e.dest = some k then
      g.lastDistance (records.filterMap LineRecord.distance?) (e.src, e.dest) else 0 := by
  obtain ⟨t, ht, hdist⟩ := distance_of_link hd.valid h
  rw [hdist k e he, ← hd.holds.distances_eq]
  have hlast := hd.millimeters?_gatherDistances ht (e.src, e.dest)
  rw [show DistanceTable.millimeters? [] (e.src, e.dest) = none from rfl, Option.or_none] at hlast
  rw [hlast]
  rfl

end Registry

/-- **Distances.** In a compiled track, an edge that a look-up by its nodes finds has the distance of
the last record that covers them, 0 if none does; any other edge is shadowed and has none. -/
theorem lastDistance_of_compile {text : String} {o : Options} {t : Track}
    (h : (compile text o).result = .ok t) : ∃ records, readRecords text = .ok records ∧
      ∀ k e, t.graph.edge? k = some e →
        (t.graph.edgeBetween? e.src e.dest = some k → e.distance =
          t.graph.lastDistance (records.filterMap LineRecord.distance?) (e.src, e.dest)) ∧
        (t.graph.edgeBetween? e.src e.dest ≠ some k → e.distance = 0 ∧ t.graph.Shadowed e) := by
  obtain ⟨records, r, hs⟩ := exists_stages_of_compile h
  refine ⟨records, hs.read, fun k e he => ⟨fun hfound => ?_, fun hmissed => ?_⟩⟩
  · rw [hs.draws.distance_eq hs.link he, if_pos hfound]
  · rw [hs.draws.distance_eq hs.link he, if_neg hmissed]
    rw [ne_eq, hs.wellFormed.edgeBetween?_eq_some_iff he, not_not] at hmissed
    exact ⟨rfl, hmissed⟩

/-- Two sensors, each the reverse of the other, measured once each way. -/
def shuttle : String := "sensor A : 0 -> B @ B : 1 -> A\ndist A B 5mm\ndist B A 7mm"

theorem lastDistance_shuttle : ∃ t, (compile shuttle {}).result = .ok t ∧
    t.graph.edges.toList.map Edge.distance = [7, 7] ∧
      ∃ records, readRecords shuttle = .ok records ∧ ∀ k e, t.graph.edge? k = some e →
        (t.graph.edgeBetween? e.src e.dest = some k → e.distance =
          t.graph.lastDistance (records.filterMap LineRecord.distance?) (e.src, e.dest)) ∧
        (t.graph.edgeBetween? e.src e.dest ≠ some k →
          e.distance = 0 ∧ t.graph.Shadowed e) := by
  have h : (compile shuttle {}).result.toOption.map
      (fun t => t.graph.edges.toList.map Edge.distance) = some [7, 7] := by
    rw [compile_eq_inserting]
    decide +kernel
  obtain ⟨t, ht, hdist⟩ := exists_of_toOption_map h
  exact ⟨t, ht, hdist, lastDistance_of_compile ht⟩

end TrackPlan
