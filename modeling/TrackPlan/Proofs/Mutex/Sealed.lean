import TrackPlan.Proofs.Graph.ReverseEdge
import TrackPlan.Proofs.Mutex.Components

/-!
# Declared groups are sealed

A declared group is closed: it has the reverse edge and the siblings of each of its members. On a
compiled track nothing outside such a group has its reverse edge or a sibling inside it either
(`Closed.isSealed`): reversing an edge twice gives the edge or a sibling of it, so whatever one rule
adds, the rules lead back from.
-/

namespace TrackPlan

namespace Graph

variable {g : Graph} {d : MutexDecl} {decls : List MutexDecl} {t : MutexTable}
  {firsts free : List Nat} {group : MutexGroup} {s : Set Nat} {i j k r : Nat}

/-- The set has the reverse edge and the siblings of each of its members. -/
structure Closed (g : Graph) (s : Set Nat) : Prop where
  reverse : ∀ {j k}, j ∈ s → g.reverseEdge? j = some k → k ∈ s
  sibling : ∀ {j k}, j ∈ s → g.Siblings j k → k ∈ s

/-- The set has an edge if it has its reverse edge or any of its siblings, and not otherwise. -/
structure Sealed (g : Graph) (s : Set Nat) : Prop where
  reverse_iff : ∀ {k e}, g.edge? k = some e → ∃ r, g.reverseEdge? k = some r ∧ (k ∈ s ↔ r ∈ s)
  sibling_iff : ∀ {j k}, g.Siblings j k → (j ∈ s ↔ k ∈ s)

theorem Siblings.symm (h : g.Siblings j k) : g.Siblings k j := by
  obtain ⟨x, y, hx, hy, hsrc, hbranch⟩ := h
  exact ⟨y, x, hy, hx, hsrc.symm, hsrc ▸ hbranch⟩

theorem Closed.sibling_iff (h : g.Closed s) (hjk : g.Siblings j k) : j ∈ s ↔ k ∈ s :=
  ⟨fun hj => h.sibling hj hjk, fun hk => h.sibling hk hjk.symm⟩

/-! ## Declared groups are closed -/

theorem closed_tied (g : Graph) (d : MutexDecl) : g.Closed (g.tied d) where
  reverse := fun hj hr => .reverse hj hr
  sibling := fun hj hs => .sibling hj hs

/-- Merging keeps sets closed. -/
theorem closed_component (g : Graph) (decls : List MutexDecl) (i : Nat) :
    g.Closed (component (g.allTied decls) i) := by
  have htied : ∀ c ∈ g.allTied decls, g.Closed c := by
    intro c hc
    obtain ⟨d, -, rfl⟩ := List.mem_map.1 hc
    exact g.closed_tied d
  constructor
  · rintro j k ⟨l, c, hil, hc, hj⟩ hr
    exact ⟨l, c, hil, hc, (htied c (List.mem_of_getElem? hc)).reverse hj hr⟩
  · rintro j k ⟨l, c, hil, hc, hj⟩ hs
    exact ⟨l, c, hil, hc, (htied c (List.mem_of_getElem? hc)).sibling hj hs⟩

/-- A declared group is the component of some record. -/
theorem Components.exists_component_of_declared (h : g.Components decls t firsts free)
    (hk : t.group? k = some group) (hd : group.declared = true) :
    ∃ i, ∀ e, e ∈ group.members ↔ e ∈ component (g.allTied decls) i := by
  rcases h.group_cases hk with ⟨i, members, -, rfl, -, hmembers⟩ | ⟨e, -, -, rfl⟩
  · exact ⟨i, hmembers⟩
  · -- the groups behind those of the records are not declared
    cases hd

/-! ## Nothing leads in from outside -/

/-- Reversing an edge twice gives the edge or a sibling of it. -/
theorem WellFormed.eq_or_siblings_of_twice (hg : g.WellFormed) (hm : g.Mirrored)
    (hr : g.Reversible) (hk : g.reverseEdge? k = some r) (hj : g.reverseEdge? r = some j) :
    j = k ∨ g.Siblings j k := by
  obtain ⟨e, he⟩ := exists_edge_of_reverseEdge? hk
  rw [hg.reverseEdge?_reverseEdge? hm hr he hk] at hj
  by_cases hjk : j = k
  · exact Or.inl hjk
  · obtain ⟨f, hf, hsrc, -⟩ := hg.edge_of_edgeBetween? hj
    obtain ⟨-, n, number, hn, hkind⟩ := hg.shadowed_of_ne he hj hjk
    refine Or.inr ⟨f, e, hf, he, hsrc.symm, ?_⟩
    unfold isBranch
    rw [hsrc, hn]
    dsimp only
    rw [hkind]
    rfl

/-- A closed set of edges is sealed where everything can be travelled the other way. -/
theorem Closed.isSealed (h : g.Closed s) (hg : g.WellFormed) (hm : g.Mirrored)
    (hr : g.Reversible) : g.Sealed s where
  reverse_iff := by
    intro k e he
    obtain ⟨r, f, hk, hf, -⟩ := hg.exists_reverseEdge? hr he
    refine ⟨r, hk, fun hmem => h.reverse hmem hk, fun hmem => ?_⟩
    obtain ⟨j, -, hj, -⟩ := hg.exists_reverseEdge? hr hf
    have hback := h.reverse hmem hj
    rcases hg.eq_or_siblings_of_twice hm hr hk hj with rfl | hsib
    · exact hback
    · exact h.sibling hback hsib
  sibling_iff := h.sibling_iff

end Graph

/-- **Sealed groups.** On a compiled track, every declared group is sealed. -/
theorem sealed_of_compile {text : String} {o : Options} {t : Track}
    (h : (compile text o).result = .ok t) {k : Nat} {group : MutexGroup}
    (hk : t.mutexes.group? k = some group) (hd : group.declared = true) :
    t.graph.Sealed {e | e ∈ group.members} := by
  obtain ⟨records, r, hs⟩ := exists_stages_of_compile h
  obtain ⟨firsts, free, hc⟩ := hs.wellFormed.components_of_build hs.nodeCount_le hs.build
  obtain ⟨i, hi⟩ := hc.exists_component_of_declared hk hd
  have hset : {e | e ∈ group.members} = component (t.graph.allTied r.mutexes) i := Set.ext hi
  rw [hset]
  exact (t.graph.closed_component r.mutexes i).isSealed hs.wellFormed hs.mirrored hs.reversible

/-- The siding without sensors, with a mutex record for each switch. -/
def guardedSiding : String := bareSiding ++ "\nmutex B1 M2\nmutex B2 M1"

theorem sealed_guardedSiding : ∃ t, (compile guardedSiding {}).result = .ok t ∧
    t.mutexes.group? 0 = some ⟨0, [0, 1, 3, 4], true⟩ ∧
      t.graph.Sealed {e | e ∈ [0, 1, 3, 4]} := by
  have h : (compile guardedSiding {}).result.toOption.map (fun t => t.mutexes.group? 0) =
      some (some ⟨0, [0, 1, 3, 4], true⟩) := by
    decide +kernel
  obtain ⟨t, ht, hgroup⟩ := exists_of_toOption_map h
  exact ⟨t, ht, hgroup, sealed_of_compile ht hgroup rfl⟩

end TrackPlan
