import TrackPlan.Proofs.Graph.FirstEdge
import TrackPlan.Proofs.Graph.Naming
import TrackPlan.Proofs.Lists

/-!
# Attaching distances

Attaching the distances of a table succeeds if every pair of the table names an edge and, where
distances are required, every edge is named (`attach_eq_ok_iff`). A shadowed edge is never named, so
then no branch may lead to one node both ways (`WellFormed.measured_iff`).
-/

namespace TrackPlan

/-! ## The order of the entries -/

namespace DistanceEntry

theorem before_trans (a b c : (Nat × Nat) × DistanceEntry) (hab : before a b = true)
    (hbc : before b c = true) : before a c = true := by
  unfold before at *
  grind

theorem before_total (a b : (Nat × Nat) × DistanceEntry) :
    (before a b || before b a) = true := by
  unfold before
  grind

end DistanceEntry

/-- Distances are attached in the order that comes of inserting the entries one by one. -/
theorem Graph.attach_eq_inserting (g : Graph) (t : DistanceTable) (required : Bool) :
    g.attach t required =
      let (g', measured, outcome) := g.measure (t.insertionSort (DistanceEntry.before · ·))
      (g', do Report.ofExcept outcome; g'.judgeUnmeasured measured required) := by
  unfold Graph.attach
  rw [mergeSort_eq_insertionSort DistanceEntry.before_trans DistanceEntry.before_total]

/-! ## The pairs of a table -/

/-- The pairs of nodes that a table speaks of. -/
def DistanceTable.keys (t : DistanceTable) : List (Nat × Nat) := t.map Prod.fst

theorem DistanceTable.mem_keys_insert {t : DistanceTable} {p q : Nat × Nat}
    {entry : DistanceEntry} : q ∈ (t.insert p entry).keys ↔ q = p ∨ q ∈ t.keys := by
  unfold keys insert
  simp only [List.map_append, List.mem_append, List.mem_map, List.mem_filter, bne_iff_ne]
  constructor
  · rintro (⟨e, ⟨he, -⟩, rfl⟩ | ⟨e, he, rfl⟩)
    · exact Or.inr ⟨e, he, rfl⟩
    · exact Or.inl (by rw [List.mem_singleton.1 he])
  · rintro (rfl | ⟨e, he, rfl⟩)
    · exact Or.inr ⟨_, List.mem_singleton_self _, rfl⟩
    · by_cases hp : e.1 = p
      · exact Or.inr ⟨_, List.mem_singleton_self _, hp.symm⟩
      · exact Or.inl ⟨e, ⟨he, hp⟩, rfl⟩

theorem DistanceTable.result_declare {t : DistanceTable} {d : DistanceDecl} {pair : Nat × Nat}
    {implied : Bool} :
    (t.declare d pair implied).result = .ok (t.insert pair ⟨d.millimeters, d.line, implied⟩) := rfl

namespace Registry

variable {r : Registry} {places : List (String × Nat)} {t t' : DistanceTable}
  {xs : List DistanceDecl}

/-- Gathering one record: the pair that it names, and the pair that it implies. -/
theorem gatherDistances_cons {x : DistanceDecl} :
    (r.gatherDistances places t (x :: xs)).result = .ok t' ↔
      ∃ p q, r.coveredPairs places x = .ok (p, q) ∧
        (r.gatherDistances places ((t.insert p ⟨x.millimeters, x.line, false⟩).insert q
          ⟨x.millimeters, x.line, true⟩) xs).result = .ok t' := by
  conv_lhs => unfold gatherDistances
  simp only [Report.result_bind_eq_ok_iff, Report.result_ofExcept, DistanceTable.result_declare,
    Except.ok.injEq, exists_eq_left', Prod.exists]

/-- Distances are gathered if the pairs of all records are found. -/
theorem exists_gatherDistances_iff :
    (∃ t', (r.gatherDistances places t xs).result = .ok t') ↔
      ∀ x ∈ xs, ∃ p, r.coveredPairs places x = .ok p := by
  induction xs generalizing t with
  | nil => simp [gatherDistances]
  | cons x rest ih =>
    simp only [gatherDistances_cons, List.forall_mem_cons]
    constructor
    · intro h
      obtain ⟨t', p, q, hx, hrest⟩ := h
      exact ⟨⟨(p, q), hx⟩, ih.1 ⟨t', hrest⟩⟩
    · intro h
      obtain ⟨⟨⟨p, q⟩, hx⟩, hrest⟩ := h
      obtain ⟨t', ht'⟩ := ih.2 hrest
      exact ⟨t', p, q, hx, ht'⟩

/-- The table speaks of the pairs that the records name or imply. -/
theorem mem_keys_gatherDistances (h : (r.gatherDistances places t xs).result = .ok t')
    {p : Nat × Nat} : p ∈ t'.keys ↔ p ∈ t.keys ∨
      ∃ x ∈ xs, ∃ named implied, r.coveredPairs places x = .ok (named, implied) ∧
        (p = named ∨ p = implied) := by
  induction xs generalizing t with
  | nil =>
    cases h
    simp
  | cons x rest ih =>
    obtain ⟨named, implied, hx, hrest⟩ := gatherDistances_cons.1 h
    rw [ih hrest, DistanceTable.mem_keys_insert, DistanceTable.mem_keys_insert]
    simp only [List.exists_mem_cons_iff, hx, Except.ok.injEq, Prod.mk.injEq]
    constructor
    · rintro ((rfl | rfl | ht) | hrest)
      · exact Or.inr (Or.inl ⟨_, _, ⟨rfl, rfl⟩, Or.inr rfl⟩)
      · exact Or.inr (Or.inl ⟨_, _, ⟨rfl, rfl⟩, Or.inl rfl⟩)
      · exact Or.inl ht
      · exact Or.inr (Or.inr hrest)
    · rintro (ht | ⟨_, _, ⟨rfl, rfl⟩, rfl | rfl⟩ | hrest)
      · exact Or.inl (Or.inr (Or.inr ht))
      · exact Or.inl (Or.inr (Or.inl rfl))
      · exact Or.inl (Or.inl rfl)
      · exact Or.inr hrest

end Registry

/-! ## The edges of the pairs -/

namespace Graph

variable {g : Graph} {entries : List ((Nat × Nat) × DistanceEntry)} {a b k : Nat}

/-- A distance does not change which edge is the first between two nodes. -/
theorem edgeBetween?_setDistance (edge : Nat) (mm : UInt32) :
    (g.setDistance edge mm).edgeBetween? a b = g.edgeBetween? a b := by
  have hfind : ∀ ids : List Nat,
      ((ids.filterMap (g.setDistance edge mm).edge?).find? (·.dest == b)).map Edge.id =
        ((ids.filterMap g.edge?).find? (·.dest == b)).map Edge.id := by
    intro ids
    induction ids with
    | nil => rfl
    | cons id ids ih =>
      rw [List.filterMap_cons, List.filterMap_cons, edge?_setDistance]
      cases g.edge? id with
      | none => exact ih
      | some e =>
        have hdest : (if edge = id then { e with distance := mm } else e).dest = e.dest := by
          split <;> rfl
        have hid : (if edge = id then { e with distance := mm } else e).id = e.id := by
          split <;> rfl
        rw [Option.map_some, List.find?_cons, List.find?_cons, hdest]
        cases e.dest == b with
        | true => exact congrArg some hid
        | false => exact ih
  unfold edgeBetween? outgoing
  rw [node?_setDistance]
  cases g.node? a with
  | none => rfl
  | some n => exact hfind n.edges

theorem edgeCount_measure : (g.measure entries).1.edgeCount = g.edgeCount := by
  induction entries generalizing g with
  | nil => rfl
  | cons entry rest ih =>
    obtain ⟨⟨src, dest⟩, entry⟩ := entry
    unfold measure
    split
    · rfl
    · exact ih.trans (Array.size_modify ..)

/-- Every entry finds its edge, and the measured edges are those found. -/
theorem measure_eq_ok_iff : (g.measure entries).2.2 = .ok () ↔
    ∀ e ∈ entries, ∃ k, g.edgeBetween? e.1.1 e.1.2 = some k := by
  induction entries generalizing g with
  | nil => simp [measure]
  | cons entry rest ih =>
    obtain ⟨⟨src, dest⟩, entry⟩ := entry
    rw [List.forall_mem_cons]
    unfold measure
    cases hk : g.edgeBetween? src dest with
    | none => exact iff_of_false (by simp) (by simp)
    | some k =>
      dsimp only
      rw [ih]
      simp only [edgeBetween?_setDistance, Option.some.injEq, exists_eq', true_and]

theorem mem_measured_iff (h : (g.measure entries).2.2 = .ok ()) :
    k ∈ (g.measure entries).2.1 ↔ ∃ e ∈ entries, g.edgeBetween? e.1.1 e.1.2 = some k := by
  induction entries generalizing g with
  | nil => simp [measure]
  | cons entry rest ih =>
    obtain ⟨⟨src, dest⟩, entry⟩ := entry
    obtain ⟨⟨edge, hedge⟩, -⟩ := List.forall_mem_cons.1 (measure_eq_ok_iff.1 h)
    have hedge : g.edgeBetween? src dest = some edge := hedge
    unfold measure at h ⊢
    rw [hedge] at h ⊢
    dsimp only at h ⊢
    rw [List.mem_cons, ih h]
    simp only [edgeBetween?_setDistance, List.exists_mem_cons_iff, hedge, Option.some.injEq,
      eq_comm]

/-- What is said of the edges without a distance is an error only where distances are required. -/
theorem judgeUnmeasured_eq_ok_iff {measured : List Nat} {required : Bool} :
    (g.judgeUnmeasured measured required).result = .ok () ↔
      (required = true → ∀ e ∈ g.edges.toList, e.id ∈ measured) := by
  unfold judgeUnmeasured
  cases required with
  | false => simp [Report.warn]
  | true =>
    dsimp only
    rw [if_pos rfl, imp_iff_right rfl]
    split
    · next hnil =>
      apply iff_of_true rfl
      simpa [List.filter_eq_nil_iff] using hnil
    · next e rest hcons =>
      refine iff_of_false (by simp [Report.fail]) fun hall => ?_
      have he : e ∈ e :: rest := by simp
      rw [← hcons, List.mem_filter] at he
      simp [hall e he.1] at he

/-- Distances are attached if every pair of the table names an edge and, where distances are
required, every edge is named. -/
theorem WellFormed.attach_eq_ok_iff {r : Registry} (hg : g.WellFormed) (hw : r.Wires g)
    {t : DistanceTable} {required : Bool} : (g.attach t required).2.result = .ok () ↔
      (∀ p ∈ t.keys, g.Follows p.1 p.2) ∧
        (required = true → ∀ k < g.edgeCount, ∃ p ∈ t.keys, g.edgeBetween? p.1 p.2 = some k) := by
  have hentries : (∀ e ∈ t.mergeSort DistanceEntry.before,
      ∃ k, g.edgeBetween? e.1.1 e.1.2 = some k) ↔ ∀ p ∈ t.keys, g.Follows p.1 p.2 := by
    simp only [List.mem_mergeSort, hg.exists_edgeBetween?_iff, DistanceTable.keys,
      List.forall_mem_map]
  have hnamed : ∀ k, (∃ e ∈ t.mergeSort DistanceEntry.before,
      g.edgeBetween? e.1.1 e.1.2 = some k) ↔ ∃ p ∈ t.keys, g.edgeBetween? p.1 p.2 = some k := by
    intro k
    unfold DistanceTable.keys
    simp only [List.mem_mergeSort, List.mem_map, exists_exists_and_eq_and]
  have hattach : (g.attach t required).2 =
      (do Report.ofExcept (g.measure (t.mergeSort DistanceEntry.before)).2.2
          (g.measure (t.mergeSort DistanceEntry.before)).1.judgeUnmeasured
            (g.measure (t.mergeSort DistanceEntry.before)).2.1 required) := rfl
  rw [hattach, Report.result_then_eq_ok_iff, Report.result_ofExcept, ← hentries,
    ← measure_eq_ok_iff]
  apply and_congr_right
  intro hok
  rw [judgeUnmeasured_eq_ok_iff, forall_edges_iff]
  apply imp_congr_right
  intro _
  have hid := (hw.measure (t.mergeSort DistanceEntry.before)).edge_id
  simp only [← hnamed, ← mem_measured_iff hok]
  constructor
  · intro h k hk
    rw [← edgeCount_measure] at hk
    have he := Array.getElem?_eq_getElem hk
    have := h k _ he
    rwa [hid k _ he] at this
  · intro h k e he
    rw [hid k e he]
    apply h k
    rw [← edgeCount_measure]
    exact (Array.getElem?_eq_some_iff.1 he).1

/-! ## Edges side by side -/

/-- Every edge is named if both ways of every branch part and every pair of neighbours is named. -/
theorem WellFormed.measured_iff (hg : g.WellFormed) {keys : List (Nat × Nat)} :
    (∀ k < g.edgeCount, ∃ p ∈ keys, g.edgeBetween? p.1 p.2 = some k) ↔
      g.Forked ∧ ∀ a b, g.Follows a b → (a, b) ∈ keys := by
  constructor
  · intro h
    have hself : ∀ k e, g.edge? k = some e →
        (e.src, e.dest) ∈ keys ∧ g.edgeBetween? e.src e.dest = some k := by
      intro k e he
      obtain ⟨⟨a, b⟩, hp, hk⟩ := h k (Array.getElem?_eq_some_iff.1 he).1
      obtain ⟨f, hf, rfl, rfl⟩ := hg.edge_of_edgeBetween? hk
      rw [he] at hf
      cases hf
      exact ⟨hp, hk⟩
    refine ⟨hg.forked_iff.2 fun k e he => ?_, ?_⟩
    · exact (hg.edgeBetween?_eq_some_iff he).1 (hself k e he).2
    · rintro a b ⟨k, e, he, rfl, rfl⟩
      exact (hself k e he).1
  · rintro ⟨hforked, hkeys⟩ k hk
    have he := Array.getElem?_eq_getElem hk
    exact ⟨_, hkeys _ _ ⟨k, _, he, rfl, rfl⟩, hforked.edgeBetween?_eq hg he⟩

end Graph

end TrackPlan
