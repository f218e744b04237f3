import TrackPlan.Proofs.Graph.LastDistance
import TrackPlan.Proofs.Graph.ReverseEdge
import TrackPlan.Proofs.Record.Reading

/-!
# Required distances

A record that covers a pair of nodes covers their reverses in the opposite order, too
(`mem_coveredPairs_reverse_iff`). So an edge and its reverse edge have the same last record, and
where every edge has a distance they have the same one (`distance_bothWays_of_compile`).
-/

namespace TrackPlan

variable {r : Registry} {g : Graph} {records : List LineRecord} {xs : List DistanceDecl}
  {x : DistanceDecl} {a b a' b' : Nat}

/-! ## Both ways at once -/

namespace Graph

theorem Mirrored.mem_coveredPairs_reverse (hm : g.Mirrored) (ha : g.reverse? a = some a')
    (hb : g.reverse? b = some b') (h : (a, b) ∈ g.coveredPairs x) : (b', a') ∈ g.coveredPairs x := by
  rw [mem_coveredPairs_iff] at h ⊢
  obtain ⟨i, j, i', j', hi, hj, hri, hrj, hab⟩ := h
  refine ⟨i, j, i', j', hi, hj, hri, hrj, ?_⟩
  rcases hab with hab | hab
  · -- the pair that the record names
    cases hab
    cases hri.symm.trans ha
    cases hrj.symm.trans hb
    split
    · next hback => exact Or.inl hback.1
    · exact Or.inr rfl
  · split at hab
    · next hback =>
      -- the way back between a node and its reverse, which is its own reverse
      cases hab
      cases hri.symm.trans hb
      cases hrj.symm.trans ha
      rw [if_pos hback]
      obtain ⟨rfl, rfl⟩ := Prod.mk.inj hback.1
      exact Or.inr rfl
    · cases hab
      cases (hm.reverse?_symm hrj).symm.trans ha
      cases (hm.reverse?_symm hri).symm.trans hb
      exact Or.inl rfl

/-- A record covers a pair if it covers the reverses in the opposite order. -/
theorem Mirrored.mem_coveredPairs_reverse_iff (hm : g.Mirrored) (ha : g.reverse? a = some a')
    (hb : g.reverse? b = some b') :
    (b', a') ∈ g.coveredPairs x ↔ (a, b) ∈ g.coveredPairs x :=
  ⟨hm.mem_coveredPairs_reverse (hm.reverse?_symm hb) (hm.reverse?_symm ha),
    hm.mem_coveredPairs_reverse ha hb⟩

/-- The last distance is the same both ways. -/
theorem Mirrored.lastDistance_reverse (hm : g.Mirrored) (ha : g.reverse? a = some a')
    (hb : g.reverse? b = some b') : g.lastDistance xs (b', a') = g.lastDistance xs (a, b) := by
  unfold lastDistance
  simp only [hm.mem_coveredPairs_reverse_iff ha hb]

/-- A pair that is covered has a distance if no record gives 0. -/
theorem lastDistance_pos {pair : Nat × Nat} (h : ∃ x ∈ xs, pair ∈ g.coveredPairs x)
    (hpos : ∀ x ∈ xs, x.millimeters ≠ 0) : 0 < g.lastDistance xs pair := by
  obtain ⟨x, hx, hpair⟩ := h
  have hmem : x ∈ xs.filter (pair ∈ g.coveredPairs ·) := List.mem_filter.2 ⟨hx, by simpa using hpair⟩
  have hne := List.ne_nil_of_mem hmem
  unfold lastDistance
  rw [List.getLast?_eq_some_getLast hne, Option.map_some, Option.getD_some]
  exact UInt32.pos_iff_ne_zero.2 (hpos _ (List.mem_of_mem_filter (List.getLast_mem hne)))

end Graph

/-! ## Where every edge has a distance -/

/-- No distance record gives 0. -/
theorem millimeters_ne_zero_of_readRecords {text : String}
    (h : readRecords text = .ok records) :
    ∀ x ∈ records.filterMap LineRecord.distance?, x.millimeters ≠ 0 := by
  intro x hx
  obtain ⟨⟨line, record⟩, hmem, hdistance⟩ := List.mem_filterMap.1 hx
  have hsound := (readRecords_eq_ok_iff.1 h).sound _ hmem
  cases record <;> cases hdistance
  exact hsound

/-- Where distances are required, no edge is shadowed and every edge is covered. -/
theorem Registry.Draws.covered_of_link (hd : r.Draws g records) {o : Options}
    (h : (r.link o).result = .ok g) (hr : g.Reversible) (ho : o.requireDistances = true) :
    g.Forked ∧ ∀ i j, g.Follows i j →
      ∃ x ∈ records.filterMap LineRecord.distance?, (i, j) ∈ g.coveredPairs x := by
  obtain ⟨-, g₀, hg₀, t, ht, hok, -⟩ := link_eq_ok.1 h
  -- names say the same of the graph before distances
  have hd₀ : r.Draws g₀ records := ⟨hd.valid, hd.holds, wires_of_wire hg₀⟩
  have hr₀ : g₀.Reversible := hd₀.reversible_iff.2 (hd.reversible_iff.1 hr)
  obtain ⟨-, -, hrequired⟩ := (hd₀.exists_attach_iff hr₀).1 ⟨t, ht, hok⟩
  obtain ⟨hforks, hcover⟩ := hrequired ho
  refine ⟨hd.forked_iff.2 hforks, fun i j hf => ?_⟩
  obtain ⟨a, b, ha, hb⟩ := hd.exists_names hf
  obtain ⟨x, hx, hxab⟩ := hcover a b ((hd.leads_iff_follows ha hb).2 hf)
  obtain ⟨p, q, hpq, hij⟩ := (hd.covers_iff ha hb hf).2 hxab
  exact ⟨x, hx, (hd.mem_coveredPairs_iff hpq).2 hij⟩

/-- **Required distances.** Where distances are required, every edge of a compiled track has a
distance, and its reverse edge has the same one. -/
theorem distance_bothWays_of_compile {text : String} {o : Options} {t : Track}
    (ho : o.requireDistances = true) (h : (compile text o).result = .ok t) :
    ∀ k e, t.graph.edge? k = some e → 0 < e.distance ∧ ∃ r f, t.graph.reverseEdge? k = some r ∧
      t.graph.edge? r = some f ∧ f.distance = e.distance := by
  obtain ⟨records, reg, hs⟩ := exists_stages_of_compile h
  obtain ⟨hforked, hcovered⟩ := hs.draws.covered_of_link hs.link hs.reversible ho
  have hlast : ∀ k e, t.graph.edge? k = some e → e.distance =
      t.graph.lastDistance (records.filterMap LineRecord.distance?) (e.src, e.dest) := by
    intro k e he
    rw [hs.draws.distance_eq hs.link he, if_pos (hforked.edgeBetween?_eq hs.wellFormed he)]
  intro k e he
  obtain ⟨r, f, hr, hf, hsrc, hdest⟩ := hs.wellFormed.exists_reverseEdge? hs.reversible he
  refine ⟨?_, r, f, hr, hf, ?_⟩
  · rw [hlast k e he]
    exact Graph.lastDistance_pos (hcovered _ _ ⟨k, e, he, rfl, rfl⟩)
      (millimeters_ne_zero_of_readRecords hs.read)
  · rw [hlast k e he, hlast r f hf]
    exact hs.mirrored.lastDistance_reverse hdest hsrc

/-- A stop between two ends of the track; the way from the second end is measured twice. -/
def stop : String :=
  "enter E1 -> S @ X1\nsep S -> X2 @ R -> X1\nenter E2 -> R @ X2\n" ++
    "dist E1 S 30mm\ndist S X2 50mm\ndist E2 R 40mm"

theorem distance_bothWays_stop : ({ requireDistances := true } : Options).requireDistances = true ∧
    ∃ t, (compile stop { requireDistances := true }).result = .ok t ∧
      t.graph.edges.toList.map Edge.distance = [30, 40, 40, 30] ∧
        ∀ k e, t.graph.edge? k = some e → 0 < e.distance ∧ ∃ r f,
          t.graph.reverseEdge? k = some r ∧ t.graph.edge? r = some f ∧ f.distance = e.distance := by
  have h : (compile stop { requireDistances := true }).result.toOption.map
      (fun t => t.graph.edges.toList.map Edge.distance) = some [30, 40, 40, 30] := by
    rw [compile_eq_inserting]
    decide +kernel
  obtain ⟨t, ht, hdist⟩ := exists_of_toOption_map h
  exact ⟨rfl, t, ht, hdist, distance_bothWays_of_compile rfl ht⟩

end TrackPlan
