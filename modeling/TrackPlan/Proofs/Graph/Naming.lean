import TrackPlan.Proofs.Graph.Reversal

/-!
# The graph of a list of records, by name

Where a graph is made of a list of records, names and positions say the same: a name has a position
if a node is declared under it (`Draws.exists_nodeId?_iff`), edges lead where the declarations say
(`Draws.leads_iff`), and reverses are those declared (`Draws.reverses_iff`).
-/

namespace TrackPlan.Registry

variable {r : Registry} {g : Graph} {records : List LineRecord} {a b : String} {i j : Nat}

/-- The graph is made of the registry, and the registry of the records. -/
structure Draws (r : Registry) (g : Graph) (records : List LineRecord) : Prop where
  valid : r.Valid
  holds : r.Holds records
  wires : r.Wires g

theorem Draws.wellFormed (h : r.Draws g records) : g.WellFormed := h.wires.wellFormed h.valid

theorem Draws.mirrored (h : r.Draws g records) : g.Mirrored := h.wires.mirrored h.valid h.holds

/-! ## Names with a position -/

/-- A name has a place if a node is declared under it. -/
theorem Holds.exists_lookup_iff (hh : r.Holds records) (hv : r.Valid) :
    (∃ p, r.places.lookup a = some p) ↔ Declared (declsOf records) a := by
  unfold Declared
  rw [← hh.decls_eq, List.mem_map]
  constructor
  · rintro ⟨p, hp⟩
    obtain ⟨d, hd, hname⟩ := hv.lookup_places.1 hp
    exact ⟨d, mem_decls_of_placed hd, hname⟩
  · intro h
    obtain ⟨d, hd, hname⟩ := h
    obtain ⟨p, hp⟩ := hh.exists_placed hv hd
    exact ⟨p, hv.lookup_places.2 ⟨d, hp, hname⟩⟩

theorem Draws.exists_nodeId?_iff (h : r.Draws g records) :
    (∃ i, g.nodeId? a = some i) ↔ Declared (declsOf records) a := by
  rw [← h.holds.exists_lookup_iff h.valid]
  unfold Graph.nodeId?
  rw [h.wires.places_eq]

theorem Draws.nodeId?_inj (h : r.Draws g records) (ha : g.nodeId? a = some i)
    (hb : g.nodeId? b = some i) : a = b := by
  obtain ⟨d, hd, rfl⟩ := (h.wires.lookup_places h.valid).1 ha
  obtain ⟨e, he, rfl⟩ := (h.wires.lookup_places h.valid).1 hb
  rw [hd] at he
  cases he
  rfl

/-- The declaration and the node behind a name. -/
theorem Draws.exists_decl (h : r.Draws g records) (ha : g.nodeId? a = some i) :
    ∃ d ∈ declsOf records, ∃ n, d.name = a ∧ g.node? i = some n ∧
      Resolved g.places i (some d) n := by
  obtain ⟨d, hd, hname⟩ := (h.wires.lookup_places h.valid).1 ha
  obtain ⟨n, hn⟩ := Graph.WellFormed.exists_node (h.wires.lt_of_lookup h.valid ha)
  obtain ⟨d?, hd', hr⟩ := h.wires.resolved i n hn
  rw [hd] at hd'
  cases hd'
  exact ⟨d, h.holds.decls_eq ▸ mem_decls_of_placed hd, n, hname, hn, hr⟩

/-- The name of a node is the one that is looked up. -/
theorem Draws.nameOf_eq (h : r.Draws g records) (ha : g.nodeId? a = some i) : g.nameOf i = a := by
  obtain ⟨d, -, n, rfl, hn, -, hname, -⟩ := h.exists_decl ha
  unfold Graph.nameOf
  rw [hn]
  exact hname

/-- A name is declared once. -/
theorem Draws.decl_unique (h : r.Draws g records) {d e : Decl} (hd : d ∈ declsOf records)
    (he : e ∈ declsOf records) (hn : d.name = e.name) : d = e :=
  List.inj_on_of_nodup_map (h.holds.decls_eq ▸ h.valid.names_nodup) hd he hn

/-! ## Successors and reverses -/

/-- Only the declaration of a name says what it leads to. -/
theorem Draws.mem_successors_iff (h : r.Draws g records) {d : Decl} (hd : d ∈ declsOf records) :
    b ∈ d.kind.successors ↔ Leads (declsOf records) d.name b := by
  constructor
  · intro hb
    exact ⟨d, hd, rfl, hb⟩
  · intro hleads
    obtain ⟨e, he, hname, hb⟩ := hleads
    rwa [← h.decl_unique he hd hname]

/-- A node is followed by the nodes that its declaration names. -/
theorem Draws.leads_iff (h : r.Draws g records) (ha : g.nodeId? a = some i) :
    Leads (declsOf records) a b ↔ ∃ j, g.nodeId? b = some j ∧ g.Follows i j := by
  obtain ⟨d, hd, n, rfl, hn, -, -, -, hkind⟩ := h.exists_decl ha
  rw [← h.mem_successors_iff hd]
  simp only [h.wellFormed.follows_iff hn]
  constructor
  · intro hb
    obtain ⟨j, hj, hlookup⟩ := hkind.exists_right hb
    exact ⟨j, hlookup, hj⟩
  · rintro ⟨j, hb, hj⟩
    obtain ⟨s, hs, hlookup⟩ := hkind.exists_left hj
    rwa [h.nodeId?_inj hb hlookup]

/-- The reverse of a node is the one that its declaration names. -/
theorem Draws.reverses_iff (h : r.Draws g records) (ha : g.nodeId? a = some i) :
    Reverses (declsOf records) a b ↔ ∃ j, g.nodeId? b = some j ∧ g.reverse? i = some j := by
  obtain ⟨d, hd, n, rfl, hn, -, -, hrev, -⟩ := h.exists_decl ha
  unfold Graph.reverse?
  rw [hn, Option.map_some]
  constructor
  · intro hs
    obtain ⟨e, he, hname, rfl⟩ := hs
    obtain rfl := h.decl_unique he hd hname
    exact ⟨_, hrev, rfl⟩
  · rintro ⟨j, hb, hj⟩
    cases hj
    exact ⟨d, hd, rfl, h.nodeId?_inj hrev hb⟩

theorem Draws.leads_iff_follows (h : r.Draws g records) (ha : g.nodeId? a = some i)
    (hb : g.nodeId? b = some j) : Leads (declsOf records) a b ↔ g.Follows i j := by
  rw [h.leads_iff ha, hb]
  simp

theorem Draws.reverses_iff_reverse? (h : r.Draws g records) (ha : g.nodeId? a = some i)
    (hb : g.nodeId? b = some j) :
    Reverses (declsOf records) a b ↔ g.reverse? i = some j := by
  rw [h.reverses_iff ha, hb]
  simp

/-- The nodes of an edge have names. -/
theorem Draws.exists_names (h : r.Draws g records) (hf : g.Follows i j) :
    ∃ a b, g.nodeId? a = some i ∧ g.nodeId? b = some j := by
  obtain ⟨n, hn⟩ := Graph.WellFormed.exists_node (Graph.WellFormed.Follows.src_lt h.wellFormed hf)
  have hj := (h.wellFormed.follows_iff hn).1 hf
  obtain ⟨d?, hd, hr⟩ := h.wires.resolved i n hn
  cases d? with
  | none =>
    rw [hr.2.2.2] at hj
    cases hj
  | some d =>
    obtain ⟨s, -, hs⟩ := hr.2.2.2.exists_left hj
    exact ⟨d.name, s, (h.wires.lookup_places h.valid).2 ⟨d, hd, rfl⟩, hs⟩

theorem Draws.declared_of_leads (h : r.Draws g records) (hl : Leads (declsOf records) a b) :
    ∃ i j, g.nodeId? a = some i ∧ g.nodeId? b = some j ∧ g.Follows i j := by
  have ha : Declared (declsOf records) a := by
    obtain ⟨d, hd, rfl, -⟩ := hl
    exact List.mem_map_of_mem hd
  obtain ⟨i, hi⟩ := h.exists_nodeId?_iff.2 ha
  obtain ⟨j, hj, hf⟩ := (h.leads_iff hi).1 hl
  exact ⟨i, j, hi, hj, hf⟩

/-- Every named node has a named reverse. -/
theorem Draws.exists_reverse (h : r.Draws g records) (ha : g.nodeId? a = some i) :
    ∃ a' i', g.nodeId? a' = some i' ∧ g.reverse? i = some i' := by
  obtain ⟨d, -, n, -, hn, -, -, hrev, -⟩ := h.exists_decl ha
  exact ⟨_, _, hrev, by rw [Graph.reverse?, hn, Option.map_some]⟩

/-- A graph is reversible if its records say that everything leads back. -/
theorem Draws.reversible_iff (h : r.Draws g records) :
    g.Reversible ↔ LeadsBack (declsOf records) := by
  constructor
  · intro hr a b a' b' hab ha hb
    obtain ⟨i, j, hi, hj, hf⟩ := h.declared_of_leads hab
    obtain ⟨i', hi', hri⟩ := (h.reverses_iff hi).1 ha
    obtain ⟨j', hj', hrj⟩ := (h.reverses_iff hj).1 hb
    exact (h.leads_iff_follows hj' hi').2 (hr.follows_reverse hf hri hrj)
  · intro hl i j n m hn hm hf
    obtain ⟨a, b, ha, hb⟩ := h.exists_names hf
    obtain ⟨a', i', hi', hri⟩ := h.exists_reverse ha
    obtain ⟨b', j', hj', hrj⟩ := h.exists_reverse hb
    have hback := hl a b a' b' ((h.leads_iff_follows ha hb).2 hf)
      ((h.reverses_iff_reverse? ha hi').2 hri) ((h.reverses_iff_reverse? hb hj').2 hrj)
    rw [h.leads_iff_follows hj' hi'] at hback
    unfold Graph.reverse? at hri hrj
    rw [hn, Option.map_some, Option.some.injEq] at hri
    rw [hm, Option.map_some, Option.some.injEq] at hrj
    rwa [hri, hrj]

theorem Draws.check_eq_ok_iff (h : r.Draws g records) :
    g.check = .ok () ↔ LeadsBack (declsOf records) := by
  rw [h.wellFormed.check_eq_ok_iff, and_iff_right h.mirrored.symmetric, h.reversible_iff]

/-- Both ways of every branch part if those of every switch do. -/
theorem Draws.forked_iff (h : r.Draws g records) : g.Forked ↔ Forks (declsOf records) := by
  constructor
  · rintro hf d hd number straight _ hkind rfl
    obtain ⟨i, hi⟩ := h.exists_nodeId?_iff.2 (List.mem_map_of_mem (f := Decl.name) hd)
    obtain ⟨e, he, n, hname, hn, -, -, -, hrelated⟩ := h.exists_decl hi
    obtain rfl := h.decl_unique he hd hname
    rw [hkind] at hrelated
    generalize hk : n.kind = k at hrelated
    cases hrelated with
    | branch hs hc =>
      apply hf i n number _ _ hn hk
      rw [← Option.some.injEq, ← hs, ← hc]
  · rintro hf i n number straight _ hn hkind rfl
    obtain ⟨d?, hd, hr⟩ := h.wires.resolved i n hn
    cases d? with
    | none =>
      rw [hr.2.2.2] at hkind
      cases hkind
    | some d =>
      have hrelated := hr.2.2.2
      rw [hkind] at hrelated
      generalize hk : d.kind = k at hrelated
      cases hrelated with
      | branch hs hc =>
        exact hf d (h.holds.decls_eq ▸ mem_decls_of_placed hd) number _ _ hk (h.nodeId?_inj hs hc)

/-! ## When names are found -/

/-- A declaration gives a node if the names that it mentions are declared. -/
theorem Holds.exists_resolve_iff (hh : r.Holds records) (hv : r.Valid) {d : Decl} {id : Nat} :
    (∃ n, d.resolve r.places id = .ok n) ↔ Declared (declsOf records) d.reverse ∧
      ∀ s ∈ d.kind.successors, Declared (declsOf records) s := by
  rw [Decl.resolve_eq]
  simp only [bind_eq_ok_iff, pure_eq_ok_iff, ← hh.exists_lookup_iff hv,
    ← Decl.locate_eq_ok (d := d)]
  rw [← Kind.exists_traverse_eq_ok_iff]
  constructor
  · intro h
    obtain ⟨n, p, hp, k, hk, -⟩ := h
    exact ⟨⟨p, hp⟩, k, hk⟩
  · rintro ⟨⟨p, hp⟩, k, hk⟩
    exact ⟨_, p, hp, k, hk, rfl⟩

/-- A graph is wired if every successor is declared. -/
theorem Holds.exists_wire_iff (hh : r.Holds records) (hv : r.Valid) : (∃ g, r.wire = .ok g) ↔
    ∀ d ∈ declsOf records, ∀ s ∈ d.kind.successors, Declared (declsOf records) s := by
  have hnodes : (∃ g, r.wire = .ok g) ↔ ∃ nodes, resolveNodes r.places r.placed = .ok nodes := by
    simp only [wire_eq_ok]
    constructor
    · intro h
      obtain ⟨g, nodes, h, -⟩ := h
      exact ⟨nodes, h⟩
    · intro h
      obtain ⟨nodes, h⟩ := h
      exact ⟨_, nodes, h, rfl⟩
  rw [hnodes]
  unfold resolveNodes
  rw [exists_mapM_eq_ok_iff]
  constructor
  · intro h d hd
    obtain ⟨p, hp⟩ := hh.exists_placed hv (hh.decls_eq ▸ hd)
    have hresolved := h (some d, p) (List.mem_zipIdx_iff_getElem?.2 hp)
    exact ((hh.exists_resolve_iff hv).1 hresolved).2
  · rintro h ⟨d?, id⟩ hmem
    cases d? with
    | none => exact ⟨_, rfl⟩
    | some d =>
      have hd := hh.decls_eq ▸ mem_decls_of_placed (List.mem_zipIdx_iff_getElem?.1 hmem)
      obtain ⟨d', hd', ho⟩ := exists_opposed hd
      apply (hh.exists_resolve_iff hv).2
      rw [ho.reverse_eq]
      exact ⟨List.mem_map_of_mem hd', h d hd⟩

end TrackPlan.Registry
