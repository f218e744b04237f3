import TrackPlan.Proofs.Graph.Measuring

/-!
# Which edges a distance speaks for

A distance record names a pair of nodes and implies another one. `Draws.covers_iff` says by name
which edges these are, and `Draws.exists_attach_iff` when the distances of a list of records can be
attached.
-/

namespace TrackPlan.Registry

variable {r : Registry} {g : Graph} {records : List LineRecord} {places : List (String × Nat)}
  {x : DistanceDecl} {p q : Nat × Nat} {a b : String} {i j line : Nat}

/-! ## Pairs by position -/

theorem coveredPairs_eq_ok : r.coveredPairs places x = .ok (p, q) ↔
    ∃ i d j e, r.locate places x.line x.src = .ok (i, d) ∧
      r.locate places x.line x.dest = .ok (j, e) ∧
        ∃ j' e' i' d', r.locate places x.line e.reverse = .ok (j', e') ∧
          r.locate places x.line d.reverse = .ok (i', d') ∧ p = (i, j) ∧
            q = if (j', i') = (i, j) ∧ x.src ∈ e.kind.successors then (j, i) else (j', i') := by
  unfold coveredPairs
  simp only [bind_eq_ok_iff, Prod.exists]
  constructor
  · intro hs
    obtain ⟨i, d, hi, j, e, hj, j', e', hj', i', d', hi', hpq⟩ := hs
    refine ⟨i, d, j, e, hi, hj, j', e', i', d', hj', hi', ?_⟩
    split at hpq
    · next h =>
      cases hpq
      exact ⟨rfl, by rw [if_pos h]⟩
    · next h =>
      cases hpq
      exact ⟨rfl, by rw [if_neg h]⟩
  · intro hs
    obtain ⟨i, d, j, e, hi, hj, j', e', i', d', hj', hi', rfl, rfl⟩ := hs
    refine ⟨i, d, hi, j, e, hj, j', e', hj', i', d', hi', ?_⟩
    split <;> rfl

theorem Draws.decl?_eq_some_iff (h : r.Draws g records) {d : Decl} :
    r.decl? a = some d ↔ d ∈ declsOf records ∧ d.name = a := by
  rw [h.valid.decl?_eq_some_iff, h.holds.decls_eq]

/-- A name is located if it has a position; its declaration comes along. -/
theorem Draws.locate_eq_ok (h : r.Draws g records) {d : Decl} :
    r.locate g.places line a = .ok (i, d) ↔
      g.nodeId? a = some i ∧ d ∈ declsOf records ∧ d.name = a := by
  rw [← h.decl?_eq_some_iff]
  unfold locate Graph.nodeId?
  cases g.places.lookup a <;> cases r.decl? a <;> simp

/-- The pairs of a record: the one that it names, and either the way back or the reverses in the
opposite order. -/
theorem Draws.coveredPairs_eq_ok (h : r.Draws g records) :
    r.coveredPairs g.places x = .ok (p, q) ↔
      ∃ i j i' j', g.nodeId? x.src = some i ∧ g.nodeId? x.dest = some j ∧
        g.reverse? i = some i' ∧ g.reverse? j = some j' ∧ p = (i, j) ∧
          (((j', i') = (i, j) ∧ Leads (declsOf records) x.dest x.src) ∧ q = (j, i) ∨
            ¬ ((j', i') = (i, j) ∧ Leads (declsOf records) x.dest x.src) ∧ q = (j', i')) := by
  rw [Registry.coveredPairs_eq_ok]
  simp only [h.locate_eq_ok]
  constructor
  · intro hx
    obtain ⟨i, d, j, e, ⟨hi, hd, hdn⟩, ⟨hj, he, hen⟩, hx⟩ := hx
    obtain ⟨j', e', i', d', ⟨hj', -⟩, ⟨hi', -⟩, rfl, hq⟩ := hx
    refine ⟨i, j, i', j', hi, hj, ?_, ?_, rfl, ?_⟩
    · exact (h.reverses_iff_reverse? hi hi').1 ⟨d, hd, hdn, rfl⟩
    · exact (h.reverses_iff_reverse? hj hj').1 ⟨e, he, hen, rfl⟩
    · rw [← hen, ← h.mem_successors_iff he]
      split at hq
      · next hc => exact Or.inl ⟨hc, hq⟩
      · next hc => exact Or.inr ⟨hc, hq⟩
  · intro hx
    obtain ⟨i, j, i', j', hi, hj, hri, hrj, rfl, hq⟩ := hx
    obtain ⟨d, hd, n, hdn, hn, -, -, hrev, -⟩ := h.exists_decl hi
    obtain ⟨e, he, m, hem, hm, -, -, hrev', -⟩ := h.exists_decl hj
    obtain ⟨d', hd', ho⟩ := exists_opposed hd
    obtain ⟨e', he', ho'⟩ := exists_opposed he
    rw [Graph.reverse?, hn, Option.map_some, Option.some.injEq] at hri
    rw [Graph.reverse?, hm, Option.map_some, Option.some.injEq] at hrj
    refine ⟨i, d, j, e, ⟨hi, hd, hdn⟩, ⟨hj, he, hem⟩, j', e', i', d',
      ⟨hrj ▸ hrev', he', ho'.reverse_eq.symm⟩, ⟨hri ▸ hrev, hd', ho.reverse_eq.symm⟩, rfl, ?_⟩
    rw [← hem, ← h.mem_successors_iff he] at hq
    rcases hq with ⟨hc, rfl⟩ | ⟨hc, rfl⟩
    · rw [if_pos hc]
    · rw [if_neg hc]

theorem Draws.exists_coveredPairs_iff (h : r.Draws g records) :
    (∃ pq, r.coveredPairs g.places x = .ok pq) ↔
      Declared (declsOf records) x.src ∧ Declared (declsOf records) x.dest := by
  simp only [Prod.exists, ← h.exists_nodeId?_iff]
  constructor
  · intro hs
    obtain ⟨i, j, k, l, hpq⟩ := hs
    obtain ⟨i, j, -, -, hi, hj, -⟩ := h.coveredPairs_eq_ok.1 hpq
    exact ⟨⟨i, hi⟩, j, hj⟩
  · intro hs
    obtain ⟨⟨i, hi⟩, j, hj⟩ := hs
    obtain ⟨-, i', -, hi'⟩ := h.exists_reverse hi
    obtain ⟨-, j', -, hj'⟩ := h.exists_reverse hj
    by_cases hc : (j', i') = (i, j) ∧ Leads (declsOf records) x.dest x.src
    · exact ⟨i, j, j, i, h.coveredPairs_eq_ok.2 ⟨i, j, i', j', hi, hj, hi', hj', rfl,
        Or.inl ⟨hc, rfl⟩⟩⟩
    · exact ⟨i, j, j', i', h.coveredPairs_eq_ok.2 ⟨i, j, i', j', hi, hj, hi', hj', rfl,
        Or.inr ⟨hc, rfl⟩⟩⟩

/-! ## Pairs by name -/

/-- What a distance names or implies by position, it speaks for by name. -/
theorem Draws.covers_of_coveredPairs (h : r.Draws g records) (ha : g.nodeId? a = some i)
    (hb : g.nodeId? b = some j) (hpq : r.coveredPairs g.places x = .ok (p, q))
    (hij : (i, j) = p ∨ (i, j) = q) : Covers (declsOf records) x a b := by
  obtain ⟨k, l, k', l', hk, hl, hrk, hrl, rfl, hq⟩ := h.coveredPairs_eq_ok.1 hpq
  rcases hij with hij | rfl
  · cases hij
    exact Or.inl ⟨h.nodeId?_inj hk ha, h.nodeId?_inj hl hb⟩
  · rcases hq with ⟨⟨hkl, -⟩, hq⟩ | ⟨-, hq⟩
    · -- the way back between reverses
      cases hq
      cases hkl
      refine Or.inr (Or.inr ⟨(h.reverses_iff_reverse? ha hb).2 hrl, ?_, ?_⟩)
      · exact h.nodeId?_inj hk hb
      · exact h.nodeId?_inj hl ha
    · cases hq
      refine Or.inr (Or.inl ⟨x.dest, x.src, ?_, ?_, rfl, rfl⟩)
      · exact (h.reverses_iff_reverse? ha hl).2 (h.mirrored.reverse?_symm hrl)
      · exact (h.reverses_iff_reverse? hb hk).2 (h.mirrored.reverse?_symm hrk)

/-- The edge that a distance speaks for by name is one that it names or implies by position. -/
theorem Draws.exists_coveredPairs_of_covers (h : r.Draws g records) (ha : g.nodeId? a = some i)
    (hb : g.nodeId? b = some j) (hleads : Leads (declsOf records) a b)
    (hcovers : Covers (declsOf records) x a b) :
    ∃ p q, r.coveredPairs g.places x = .ok (p, q) ∧ ((i, j) = p ∨ (i, j) = q) := by
  rcases hcovers with ⟨rfl, rfl⟩ | ⟨a', b', hra, hrb, rfl, rfl⟩ | ⟨hrab, rfl, rfl⟩
  · obtain ⟨⟨p, q⟩, hpq⟩ := h.exists_coveredPairs_iff.2
      ⟨h.exists_nodeId?_iff.1 ⟨i, ha⟩, h.exists_nodeId?_iff.1 ⟨j, hb⟩⟩
    refine ⟨p, q, hpq, Or.inl ?_⟩
    obtain ⟨k, l, k', l', hk, hl, -, -, rfl, -⟩ := h.coveredPairs_eq_ok.1 hpq
    rw [ha] at hk
    rw [hb] at hl
    cases hk
    cases hl
    rfl
  · obtain ⟨k, hk, hrk⟩ := (h.reverses_iff ha).1 hra
    obtain ⟨l, hl, hrl⟩ := (h.reverses_iff hb).1 hrb
    have hik := h.mirrored.reverse?_symm hrk
    have hjl := h.mirrored.reverse?_symm hrl
    by_cases hc : (i, j) = (l, k) ∧ Leads (declsOf records) x.dest x.src
    · exact ⟨(l, k), (k, l), h.coveredPairs_eq_ok.2 ⟨l, k, j, i, hl, hk, hjl, hik, rfl,
        Or.inl ⟨hc, rfl⟩⟩, Or.inl hc.1⟩
    · exact ⟨(l, k), (i, j), h.coveredPairs_eq_ok.2 ⟨l, k, j, i, hl, hk, hjl, hik, rfl,
        Or.inr ⟨hc, rfl⟩⟩, Or.inr rfl⟩
  · have hrij := (h.reverses_iff_reverse? ha hb).1 hrab
    have hrji := h.mirrored.reverse?_symm hrij
    exact ⟨(j, i), (i, j), h.coveredPairs_eq_ok.2 ⟨j, i, i, j, hb, ha, hrji, hrij, rfl,
      Or.inl ⟨⟨rfl, hleads⟩, rfl⟩⟩, Or.inr rfl⟩

/-- A distance speaks for an edge by name if it names or implies it by position. -/
theorem Draws.covers_iff (h : r.Draws g records) (ha : g.nodeId? a = some i)
    (hb : g.nodeId? b = some j) (hab : g.Follows i j) :
    (∃ p q, r.coveredPairs g.places x = .ok (p, q) ∧ ((i, j) = p ∨ (i, j) = q)) ↔
      Covers (declsOf records) x a b := by
  constructor
  · rintro ⟨p, q, hpq, hij⟩
    exact h.covers_of_coveredPairs ha hb hpq hij
  · intro hcovers
    exact h.exists_coveredPairs_of_covers ha hb ((h.leads_iff_follows ha hb).2 hab) hcovers

/-! ## The table of all records -/

variable {t : DistanceTable} {required : Bool}

/-- The table speaks of the pairs that the distance records name or imply. -/
theorem Draws.mem_keys_iff (h : r.Draws g records)
    (ht : (r.distanceTable g.places).result = .ok t) {pair : Nat × Nat} : pair ∈ t.keys ↔
      ∃ x ∈ records.filterMap LineRecord.distance?, ∃ p q,
        r.coveredPairs g.places x = .ok (p, q) ∧ (pair = p ∨ pair = q) := by
  rw [← h.holds.distances_eq, mem_keys_gatherDistances ht]
  exact or_iff_right List.not_mem_nil

/-- Every pair of the table names an edge if every record does. -/
theorem Draws.keys_follow_iff (h : r.Draws g records) (hr : g.Reversible)
    (ht : (r.distanceTable g.places).result = .ok t) : (∀ p ∈ t.keys, g.Follows p.1 p.2) ↔
      ∀ x ∈ records.filterMap LineRecord.distance?, Leads (declsOf records) x.src x.dest := by
  constructor
  · intro hkeys x hx
    have hpairs := exists_gatherDistances_iff.1 ⟨t, ht⟩ x (h.holds.distances_eq ▸ hx)
    obtain ⟨⟨p, q⟩, hpq⟩ := hpairs
    obtain ⟨i, j, -, -, hi, hj, -, -, rfl, -⟩ := h.coveredPairs_eq_ok.1 hpq
    exact (h.leads_iff_follows hi hj).2
      (hkeys _ ((h.mem_keys_iff ht).2 ⟨x, hx, _, _, hpq, Or.inl rfl⟩))
  · intro hlead pair hpair
    obtain ⟨x, hx, p, q, hpq, hp⟩ := (h.mem_keys_iff ht).1 hpair
    obtain ⟨i, j, i', j', hi, hj, hri, hrj, rfl, hq⟩ := h.coveredPairs_eq_ok.1 hpq
    have hf := (h.leads_iff_follows hi hj).1 (hlead x hx)
    rcases hp with rfl | rfl
    · exact hf
    · rcases hq with ⟨⟨-, hback⟩, rfl⟩ | ⟨-, rfl⟩
      · exact (h.leads_iff_follows hj hi).1 hback
      · exact hr.follows_reverse hf hri hrj

/-- Every edge is named by the table if every pair of neighbours is covered by a record. -/
theorem Draws.keys_cover_iff (h : r.Draws g records)
    (ht : (r.distanceTable g.places).result = .ok t) : (∀ i j, g.Follows i j → (i, j) ∈ t.keys) ↔
      ∀ a b, Leads (declsOf records) a b →
        ∃ x ∈ records.filterMap LineRecord.distance?, Covers (declsOf records) x a b := by
  simp only [h.mem_keys_iff ht]
  constructor
  · intro hkeys a b hab
    obtain ⟨i, j, hi, hj, hf⟩ := h.declared_of_leads hab
    obtain ⟨x, hx, hpairs⟩ := hkeys i j hf
    exact ⟨x, hx, (h.covers_iff hi hj hf).1 hpairs⟩
  · intro hcover i j hf
    obtain ⟨a, b, hi, hj⟩ := h.exists_names hf
    obtain ⟨x, hx, hxab⟩ := hcover a b ((h.leads_iff_follows hi hj).2 hf)
    exact ⟨x, hx, (h.covers_iff hi hj hf).2 hxab⟩

/-- On a reversible graph, the distance records are attached if each names an edge and, where
distances are required, every edge has one. -/
theorem Draws.exists_attach_iff (h : r.Draws g records) (hr : g.Reversible) :
    (∃ t, (r.distanceTable g.places).result = .ok t ∧ (g.attach t required).2.result = .ok ()) ↔
      (∀ x ∈ records.filterMap LineRecord.distance?,
        Declared (declsOf records) x.src ∧ Declared (declsOf records) x.dest) ∧
      (∀ x ∈ records.filterMap LineRecord.distance?,
        Leads (declsOf records) x.src x.dest) ∧
      (required = true → Forks (declsOf records) ∧ ∀ a b, Leads (declsOf records) a b →
        ∃ x ∈ records.filterMap LineRecord.distance?, Covers (declsOf records) x a b) := by
  have hgather : (∃ t, (r.distanceTable g.places).result = .ok t) ↔
      ∀ x ∈ records.filterMap LineRecord.distance?,
        Declared (declsOf records) x.src ∧ Declared (declsOf records) x.dest := by
    unfold distanceTable
    rw [exists_gatherDistances_iff, h.holds.distances_eq]
    simp only [h.exists_coveredPairs_iff]
  have hattach : ∀ t, (r.distanceTable g.places).result = .ok t →
      ((g.attach t required).2.result = .ok () ↔
        (∀ x ∈ records.filterMap LineRecord.distance?, Leads (declsOf records) x.src x.dest) ∧
        (required = true → Forks (declsOf records) ∧ ∀ a b, Leads (declsOf records) a b →
          ∃ x ∈ records.filterMap LineRecord.distance?, Covers (declsOf records) x a b)) := by
    intro t ht
    rw [h.wellFormed.attach_eq_ok_iff h.wires, h.keys_follow_iff hr ht,
      h.wellFormed.measured_iff, h.forked_iff, h.keys_cover_iff ht]
  rw [← hgather]
  constructor
  · rintro ⟨t, ht, ha⟩
    exact ⟨⟨t, ht⟩, (hattach t ht).1 ha⟩
  · rintro ⟨⟨t, ht⟩, ha⟩
    exact ⟨t, ht, (hattach t ht).2 ha⟩

end TrackPlan.Registry
