import TrackPlan.Proofs.Graph.LastDistance

/-!
# Where linking fails

Linking fails at the first of its stages that fails (`link_eq_error_iff`).

1. `Holds.wire_eq_error` and `Draws.distanceTable_eq_error`: a name that is looked up is not
   declared.
2. `Graph.measure_eq_error_iff`: the first entry without an edge is an orphan, and
   `Draws.exists_orphan` tells it by name.
3. `Graph.judgeUnmeasured_eq_error`: an edge has no distance, where it needs one.
-/

namespace TrackPlan

/-! ## Names that are looked up -/

/-- A declaration is not resolved because of a name that has no place. -/
theorem Decl.exists_of_resolve_eq_error {d : Decl} {places : List (String × Nat)} {id : Nat}
    {e : CompileError} (h : d.resolve places id = .error e) :
    ∃ s, (s = d.reverse ∨ s ∈ d.kind.successors) ∧ places.lookup s = none ∧
      e = .unknownName d.line s := by
  have hlocate : ∀ s, d.locate places s = .error e →
      places.lookup s = none ∧ e = .unknownName d.line s := by
    intro s hs
    unfold Decl.locate at hs
    split at hs
    · cases hs
    · next hnone =>
      cases hs
      exact ⟨hnone, rfl⟩
  rw [Decl.resolve_eq] at h
  rcases bind_eq_error_iff.1 h with h | ⟨p, -, h⟩
  · exact ⟨d.reverse, Or.inl rfl, hlocate _ h⟩
  · rcases bind_eq_error_iff.1 h with h | ⟨kind, -, h⟩
    · obtain ⟨s, hs, hse⟩ := Kind.exists_of_traverse_eq_error h
      exact ⟨s, Or.inr hs, hlocate s hse⟩
    · cases h

namespace Registry

variable {r : Registry} {g : Graph} {records : List LineRecord} {places : List (String × Nat)}
  {t t' : DistanceTable} {xs : List DistanceDecl} {x : DistanceDecl} {p q pair : Nat × Nat}
  {entry entry' : DistanceEntry} {a : String} {line i : Nat} {e : CompileError} {o : Options}

/-- A graph is not wired because of a successor that is not declared. -/
theorem Holds.wire_eq_error (hh : r.Holds records) (hv : r.Valid) (h : r.wire = .error e) :
    ∃ d ∈ declsOf records, ∃ s ∈ d.kind.successors, ¬ Declared (declsOf records) s ∧
      e = .unknownName d.line s := by
  unfold wire at h
  rcases bind_eq_error_iff.1 h with h | ⟨nodes, -, h⟩
  · obtain ⟨⟨d?, id⟩, hmem, h⟩ := exists_of_mapM_eq_error h
    cases d? with
    | none => cases h
    | some d =>
      have hd := hh.decls_eq ▸ mem_decls_of_placed (List.mem_zipIdx_iff_getElem?.1 hmem)
      obtain ⟨s, hs, hnone, rfl⟩ := Decl.exists_of_resolve_eq_error h
      have hundeclared : ¬ Declared (declsOf records) s := by
        rw [← hh.exists_lookup_iff hv, hnone]
        simp
      rcases hs with rfl | hs
      · -- the reverse of a node is declared with it
        obtain ⟨d', hd', ho⟩ := exists_opposed hd
        exact absurd (ho.reverse_eq ▸ List.mem_map_of_mem hd') hundeclared
      · exact ⟨d, hd, s, hs, hundeclared, rfl⟩
  · cases h

theorem Draws.locate_eq_error (h : r.Draws g records)
    (he : r.locate g.places line a = .error e) :
    ¬ Declared (declsOf records) a ∧ e = .unknownName line a := by
  refine ⟨fun ha => ?_, ?_⟩
  · obtain ⟨i, hi⟩ := h.exists_nodeId?_iff.2 ha
    obtain ⟨d, hd, -, hname, -⟩ := h.exists_decl hi
    rw [h.locate_eq_ok.2 ⟨hi, hd, hname⟩] at he
    cases he
  · unfold locate at he
    split at he
    · cases he
    · cases he
      rfl

/-- The pairs of a record are not found because of one of the two names in it. -/
theorem Draws.coveredPairs_eq_error (h : r.Draws g records)
    (he : r.coveredPairs g.places x = .error e) :
    ∃ s, (s = x.src ∨ s = x.dest) ∧ ¬ Declared (declsOf records) s ∧
      e = .unknownName x.line s := by
  have hreverse : ∀ {s i d}, r.locate g.places x.line s = .ok (i, d) →
      r.locate g.places x.line d.reverse ≠ .error e := by
    intro s i d hs hback
    obtain ⟨-, hd, -⟩ := h.locate_eq_ok.1 hs
    obtain ⟨d', hd', ho⟩ := exists_opposed hd
    exact (h.locate_eq_error hback).1 (ho.reverse_eq ▸ List.mem_map_of_mem hd')
  unfold coveredPairs at he
  rcases bind_eq_error_iff.1 he with he | ⟨⟨i, d⟩, hi, he⟩
  · exact ⟨x.src, Or.inl rfl, h.locate_eq_error he⟩
  rcases bind_eq_error_iff.1 he with he | ⟨⟨j, d'⟩, hj, he⟩
  · exact ⟨x.dest, Or.inr rfl, h.locate_eq_error he⟩
  rcases bind_eq_error_iff.1 he with he | ⟨_, -, he⟩
  · exact absurd he (hreverse hj)
  rcases bind_eq_error_iff.1 he with he | ⟨_, -, he⟩
  · exact absurd he (hreverse hi)
  · dsimp only at he
    split at he <;> cases he

theorem exists_of_gatherDistances_eq_error
    (h : (r.gatherDistances places t xs).result = .error e) :
    ∃ x ∈ xs, r.coveredPairs places x = .error e := by
  induction xs generalizing t with
  | nil => cases h
  | cons x rest ih =>
    unfold gatherDistances at h
    simp only [Report.result_bind_eq_error_iff, Report.result_ofExcept,
      DistanceTable.result_declare, Except.ok.injEq, exists_eq_left', reduceCtorEq,
      false_or] at h
    rcases h with h | ⟨_, -, h⟩
    · exact ⟨x, List.mem_cons_self, h⟩
    · obtain ⟨y, hy, he⟩ := ih h
      exact ⟨y, List.mem_cons_of_mem x hy, he⟩

/-- The table is not made because of a name in a distance record. -/
theorem Draws.distanceTable_eq_error (h : r.Draws g records)
    (he : (r.distanceTable g.places).result = .error e) :
    ∃ x ∈ records.filterMap LineRecord.distance?, ∃ s, (s = x.src ∨ s = x.dest) ∧
      ¬ Declared (declsOf records) s ∧ e = .unknownName x.line s := by
  obtain ⟨x, hx, hxe⟩ := exists_of_gatherDistances_eq_error he
  exact ⟨x, h.holds.distances_eq ▸ hx, h.coveredPairs_eq_error hxe⟩

/-! ## The records behind the table -/

theorem eq_or_mem_of_mem_insert (h : (q, entry') ∈ t.insert p entry) :
    (q = p ∧ entry' = entry) ∨ (q, entry') ∈ t := by
  unfold DistanceTable.insert at h
  rcases List.mem_append.1 h with h | h
  · exact Or.inr (List.mem_of_mem_filter h)
  · exact Or.inl (Prod.mk.inj (List.mem_singleton.1 h))

/-- An entry of the table comes from a record that covers its pair, and has the line of it. -/
theorem exists_of_mem_gatherDistances (h : (r.gatherDistances places t xs).result = .ok t')
    (hmem : (pair, entry) ∈ t') : (pair, entry) ∈ t ∨ ∃ x ∈ xs, entry.line = x.line ∧
      ∃ p q, r.coveredPairs places x = .ok (p, q) ∧ (pair = p ∨ pair = q) := by
  induction xs generalizing t with
  | nil =>
    cases h
    exact Or.inl hmem
  | cons x rest ih =>
    obtain ⟨p, q, hx, hrest⟩ := gatherDistances_cons.1 h
    rcases ih hrest with hold | ⟨y, hy, hline, hpairs⟩
    · rcases eq_or_mem_of_mem_insert hold with ⟨rfl, rfl⟩ | hold
      · exact Or.inr ⟨x, List.mem_cons_self, rfl, p, pair, hx, Or.inr rfl⟩
      · rcases eq_or_mem_of_mem_insert hold with ⟨rfl, rfl⟩ | hold
        · exact Or.inr ⟨x, List.mem_cons_self, rfl, pair, q, hx, Or.inl rfl⟩
        · exact Or.inl hold
    · exact Or.inr ⟨y, List.mem_cons_of_mem x hy, hline, hpairs⟩

end Registry

/-! ## Entries without an edge, and edges without an entry -/

namespace Graph

variable {g : Graph} {entries : List ((Nat × Nat) × DistanceEntry)} {e : CompileError}

/-- A distance changes no name. -/
theorem nameOf_setDistance (edge : Nat) (mm : UInt32) (i : Nat) :
    (g.setDistance edge mm).nameOf i = g.nameOf i := rfl

theorem nameOf_measure (i : Nat) : (g.measure entries).1.nameOf i = g.nameOf i := by
  induction entries generalizing g with
  | nil => rfl
  | cons entry rest ih =>
    obtain ⟨⟨src, dest⟩, entry⟩ := entry
    unfold measure
    split
    · rfl
    · exact ih.trans (nameOf_setDistance _ _ i)

@[simp] theorem nameOf_attach (t : DistanceTable) (required : Bool) (i : Nat) :
    (g.attach t required).1.nameOf i = g.nameOf i := nameOf_measure i

@[simp] theorem edgeBetween?_attach (t : DistanceTable) (required : Bool) (a b : Nat) :
    (g.attach t required).1.edgeBetween? a b = g.edgeBetween? a b := edgeBetween?_measure

/-- Measuring fails at the first entry that has no edge. -/
theorem measure_eq_error_iff : (g.measure entries).2.2 = .error e ↔
    ∃ before pair entry after, entries = before ++ (pair, entry) :: after ∧
      (∀ x ∈ before, ∃ k, g.edgeBetween? x.1.1 x.1.2 = some k) ∧
      g.edgeBetween? pair.1 pair.2 = none ∧
        e = .orphanDistance entry.line (g.nameOf pair.1) (g.nameOf pair.2) := by
  induction entries generalizing g with
  | nil => simp [measure]
  | cons first rest ih =>
    obtain ⟨⟨src, dest⟩, first⟩ := first
    unfold measure
    cases hk : g.edgeBetween? src dest with
    | none =>
      constructor
      · intro h
        cases h
        exact ⟨[], (src, dest), first, rest, rfl, by simp, hk, rfl⟩
      · rintro ⟨_ | ⟨x, before⟩, pair, entry, after, heq, hbefore, -, rfl⟩
        · cases heq
          rfl
        · obtain ⟨rfl, -⟩ := List.cons.inj heq
          obtain ⟨⟨k, hk'⟩, -⟩ := List.forall_mem_cons.1 hbefore
          rw [hk] at hk'
          cases hk'
    | some k =>
      dsimp only
      rw [ih]
      simp only [edgeBetween?_setDistance, nameOf_setDistance]
      constructor
      · rintro ⟨before, pair, entry, after, rfl, hbefore, hnone⟩
        exact ⟨((src, dest), first) :: before, pair, entry, after, rfl,
          List.forall_mem_cons.2 ⟨⟨k, hk⟩, hbefore⟩, hnone⟩
      · rintro ⟨_ | ⟨x, before⟩, pair, entry, after, heq, hbefore, hnone, he⟩
        · cases heq
          rw [hk] at hnone
          cases hnone
        · obtain ⟨-, rfl⟩ := List.cons.inj heq
          exact ⟨before, pair, entry, after, rfl, (List.forall_mem_cons.1 hbefore).2, hnone, he⟩

theorem judgeUnmeasured_eq_error {measured : List Nat} {required : Bool}
    (h : (g.judgeUnmeasured measured required).result = .error e) :
    required = true ∧ ∃ edge ∈ g.edges.toList, edge.id ∉ measured ∧
      e = .missingDistance (g.nameOf edge.src) (g.nameOf edge.dest) := by
  unfold judgeUnmeasured at h
  cases required with
  | false => cases h
  | true =>
    dsimp only at h
    rw [if_pos rfl] at h
    split at h
    · cases h
    · next edge rest hcons =>
      cases h
      have hmem : edge ∈ edge :: rest := List.mem_cons_self
      rw [← hcons, List.mem_filter] at hmem
      exact ⟨rfl, edge, hmem.1, by simpa using hmem.2, rfl⟩

/-- Attaching distances fails because of an entry without an edge, or because of an edge without a
distance. -/
theorem attach_eq_error {t : DistanceTable} {required : Bool}
    (h : (g.attach t required).2.result = .error e) :
    (∃ pair entry, (pair, entry) ∈ t ∧ g.edgeBetween? pair.1 pair.2 = none ∧
      e = .orphanDistance entry.line (g.nameOf pair.1) (g.nameOf pair.2)) ∨
    (required = true ∧ ∃ k edge, (g.attach t required).1.edge? k = some edge ∧
      (∀ pair ∈ t.keys, g.edgeBetween? pair.1 pair.2 ≠ some edge.id) ∧
        e = .missingDistance (g.nameOf edge.src) (g.nameOf edge.dest)) := by
  rcases Report.result_bind_eq_error_iff.1 h with h | ⟨⟨⟩, hok, h⟩
  · obtain ⟨before, pair, entry, after, hsort, -, hnone, he⟩ := measure_eq_error_iff.1 h
    have hmem : (pair, entry) ∈ t.mergeSort DistanceEntry.before := by rw [hsort]; simp
    exact Or.inl ⟨pair, entry, List.mem_mergeSort.1 hmem, hnone, he⟩
  · obtain ⟨hrequired, edge, hedge, hfree, he⟩ := judgeUnmeasured_eq_error h
    rw [nameOf_measure, nameOf_measure] at he
    obtain ⟨k, hk⟩ := List.mem_iff_getElem?.1 hedge
    rw [Array.getElem?_toList] at hk
    refine Or.inr ⟨hrequired, k, edge, hk, fun pair hpair hfound => hfree ?_, he⟩
    obtain ⟨entry, hentry, rfl⟩ := List.mem_map.1 hpair
    exact (mem_measured_iff hok).2 ⟨entry, List.mem_mergeSort.2 hentry, hfound⟩

end Graph

namespace Registry

variable {r : Registry} {g : Graph} {records : List LineRecord} {t : DistanceTable}
  {x : DistanceDecl} {p q pair : Nat × Nat} {a b : String} {i : Nat} {e : CompileError}
  {o : Options} {required : Bool}

/-! ## By name -/

/-- A covered pair without an edge is the one that the record names, or that of the reverses in the
opposite order. -/
theorem Draws.exists_names_of_coveredPairs (h : r.Draws g records)
    (hpq : r.coveredPairs g.places x = .ok (p, q)) (hpair : pair = p ∨ pair = q)
    (hn : ¬ g.Follows pair.1 pair.2) : ∃ a b, g.nodeId? a = some pair.1 ∧
      g.nodeId? b = some pair.2 ∧ (a = x.src ∧ b = x.dest ∨
        Reverses (declsOf records) x.dest a ∧ Reverses (declsOf records) x.src b) := by
  obtain ⟨i, j, i', j', hi, hj, hri, hrj, rfl, hq⟩ := h.coveredPairs_eq_ok.1 hpq
  rcases hpair with rfl | rfl
  · exact ⟨x.src, x.dest, hi, hj, Or.inl ⟨rfl, rfl⟩⟩
  · rcases hq with ⟨⟨-, hback⟩, rfl⟩ | ⟨-, rfl⟩
    · -- the way back between a node and its reverse is an edge
      exact absurd ((h.leads_iff_follows hj hi).1 hback) hn
    · obtain ⟨a, l, ha, hl⟩ := h.exists_reverse hj
      obtain ⟨b, k, hb, hk⟩ := h.exists_reverse hi
      rw [hrj, Option.some.injEq] at hl
      rw [hri, Option.some.injEq] at hk
      subst hl hk
      exact ⟨a, b, ha, hb, Or.inr ⟨(h.reverses_iff_reverse? hj ha).2 hrj,
        (h.reverses_iff_reverse? hi hb).2 hri⟩⟩

/-- An entry of the table that has no edge, by name. -/
theorem Draws.exists_orphan (h : r.Draws g records)
    (ht : (r.distanceTable g.places).result = .ok t) {entry : DistanceEntry}
    (hmem : (pair, entry) ∈ t) (hnone : g.edgeBetween? pair.1 pair.2 = none) :
    ∃ x ∈ records.filterMap LineRecord.distance?, x.line = entry.line ∧
      (g.nameOf pair.1 = x.src ∧ g.nameOf pair.2 = x.dest ∨
        Reverses (declsOf records) x.dest (g.nameOf pair.1) ∧
          Reverses (declsOf records) x.src (g.nameOf pair.2)) ∧
      ¬ Leads (declsOf records) (g.nameOf pair.1) (g.nameOf pair.2) := by
  have hn : ¬ g.Follows pair.1 pair.2 := h.wellFormed.edgeBetween?_eq_none_iff.1 hnone
  rcases exists_of_mem_gatherDistances ht hmem with hnil | ⟨x, hx, hline, p, q, hpq, hpair⟩
  · cases hnil
  · obtain ⟨a, b, ha, hb, hab⟩ := h.exists_names_of_coveredPairs hpq hpair hn
    rw [h.nameOf_eq ha, h.nameOf_eq hb]
    exact ⟨x, h.holds.distances_eq ▸ hx, hline.symm, hab,
      mt (h.leads_iff_follows ha hb).1 hn⟩

/-- Linking, stage by stage, up to the one that fails. -/
theorem link_eq_error_iff : (r.link o).result = .error e ↔ r.checkCapacity o = .error e ∨
    r.checkCapacity o = .ok () ∧ (r.wire = .error e ∨ ∃ g, r.wire = .ok g ∧
      ((r.distanceTable g.places).result = .error e ∨
        ∃ t, (r.distanceTable g.places).result = .ok t ∧
          (g.attach t o.requireDistances).2.result = .error e)) := by
  unfold link
  simp only [Report.result_bind_eq_error_iff, Report.result_ofExcept, Report.result_pure,
    reduceCtorEq, and_false, exists_false, or_false]
  refine or_congr_right ⟨?_, ?_⟩
  · rintro ⟨⟨⟩, h⟩
    exact h
  · intro h
    exact ⟨(), h⟩

end Registry

end TrackPlan
