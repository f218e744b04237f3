import TrackPlan.Calibration
import TrackPlan.Proofs.Mutex.Partition
import TrackPlan.Proofs.Route.Heap

/-!
# What a route is

A route that is found leads from its first node to its last one, edge by edge, meets no node twice,
and is no longer than any walk (`Route.IsShortest`). Edges without length are edges like others.

1. `Walk.getLast?_nodesAlong` and `Walk.leads` say what the nodes along a walk are.
2. `WellFormed.isShortest_of_shortestRoute?` says it of the route that the search traces back.
-/

namespace TrackPlan

/-- The route is a shortest way from one node of the graph to another, and passes no node twice. -/
structure Route.IsShortest (p : Route) (g : Graph) (src dest : Nat) : Prop where
  head? : p.nodes.head? = some src
  getLast? : p.nodes.getLast? = some dest
  nodup : p.nodes.Nodup
  length_eq : p.nodes.length = p.edges.length + 1
  /-- Each edge leads from the node in its place to the next one. -/
  leads : ∀ i k, p.edges[i]? = some k → ∃ e, g.edge? k = some e ∧
    p.nodes[i]? = some e.src ∧ p.nodes[i + 1]? = some e.dest
  distance_eq : p.distance = (p.edges.map g.edgeLength).sum
  le_walk : ∀ edges, g.Walk src edges dest → p.distance ≤ walkLength edges

namespace Graph

variable {g : Graph} {a b src dest i : Nat} {edges : List Edge}

/-! ## Nodes along a walk -/

theorem Walk.getLast?_nodesAlong (h : g.Walk a edges b) :
    (nodesAlong a edges).getLast? = some b := by
  induction h with
  | nil => rfl
  | @cons k b e rest he _ ih =>
    have hcons : nodesAlong e.src (e :: rest) = e.src :: nodesAlong e.dest rest := rfl
    rw [hcons, List.getLast?_cons, ih]
    rfl

theorem Walk.leads (h : g.Walk a edges b) {e : Edge} (he : edges[i]? = some e) :
    (∃ k, g.edge? k = some e) ∧ (nodesAlong a edges)[i]? = some e.src ∧
      (nodesAlong a edges)[i + 1]? = some e.dest := by
  induction h generalizing i with
  | nil => cases he
  | @cons k b f rest hf _ ih =>
    cases i with
    | zero =>
      rw [List.getElem?_cons_zero, Option.some.injEq] at he
      subst he
      exact ⟨⟨k, hf⟩, rfl, rfl⟩
    | succ i =>
      rw [List.getElem?_cons_succ] at he
      exact ih he

/-- The edges of a walk are known by their positions. -/
theorem WellFormed.sum_edgeLength (hg : g.WellFormed) (h : g.Walk a edges b) :
    ((edges.map Edge.id).map g.edgeLength).sum = walkLength edges := by
  induction h with
  | nil => rfl
  | @cons k b e rest he _ ih =>
    have hid : g.edge? e.id = some e := by rw [hg.edge_id he, he]
    rw [List.map_cons, List.map_cons, List.sum_cons, ih, walkLength_cons, edgeLength, hid]

/-! ## The route that is found -/

theorem WellFormed.isShortest_of_shortestRoute? (hg : g.WellFormed)
    (hn : g.nodeCount ≤ nodeCeiling) {p : Route} (h : g.shortestRoute? src dest = some p) :
    p.IsShortest g src dest := by
  have hdistance := hg.isDistance_of_shortestRoute? hn h
  obtain ⟨settled, first, others, hpasses, hnode, rfl⟩ := hg.exists_passes_of_shortestRoute? hn h
  have hmem := RouteLabel.least_mem first others
  obtain ⟨htraced, hopened⟩ := hpasses.founded hg
  have hsearching := hpasses.searching hg
  have hlabels : g.Traced src (RouteLabel.least first others :: settled) :=
    ⟨hopened _ hmem, htraced⟩
  have hnodes : ((RouteLabel.least first others :: settled).map RouteLabel.node).Nodup := by
    rw [List.map_cons, List.nodup_cons, List.mem_map]
    refine ⟨?_, hsearching.distinct⟩
    rintro ⟨s, hs, heq⟩
    exact hsearching.apart s hs _ hmem heq
  have htrace := hlabels.traceBack hnodes List.mem_cons_self
  rw [hnode] at htrace
  obtain ⟨hwalk, hlength, hnodup, -⟩ := htrace
  exact {
    head? := rfl
    getLast? := hwalk.getLast?_nodesAlong
    nodup := hnodup
    length_eq := by simp [nodesAlong]
    leads := by
      intro i k hk
      rw [List.getElem?_map, Option.map_eq_some_iff] at hk
      obtain ⟨e, he, rfl⟩ := hk
      obtain ⟨⟨k, hk⟩, hleads⟩ := hwalk.leads he
      exact ⟨e, by rw [hg.edge_id hk, hk], hleads⟩
    distance_eq := by rw [hg.sum_edgeLength hwalk, hlength]
    le_walk := hdistance.le_walk }

/-- No route is found just if one of the nodes does not exist or no walk leads there. -/
theorem WellFormed.shortestRoute?_eq_none_iff (hg : g.WellFormed)
    (hn : g.nodeCount ≤ nodeCeiling) :
    g.shortestRoute? src dest = none ↔
      g.nodeCount ≤ src ∨ g.nodeCount ≤ dest ∨ ∀ edges, ¬ g.Walk src edges dest := by
  by_cases hends : src < g.nodeCount ∧ dest < g.nodeCount
  · have hiff := not_congr (hg.exists_shortestRoute?_iff hn hends.1 hends.2)
    rw [← Option.isSome_iff_exists, Option.not_isSome_iff_eq_none, not_exists] at hiff
    rw [hiff]
    have hsrc : ¬ g.nodeCount ≤ src := by omega
    have hdest : ¬ g.nodeCount ≤ dest := by omega
    simp [hsrc, hdest]
  · rw [shortestRoute?, if_neg hends]
    have hout : g.nodeCount ≤ src ∨ g.nodeCount ≤ dest := by omega
    exact iff_of_true rfl (hout.imp_right Or.inl)

end Graph

namespace Registry

variable {r : Registry} {g : Graph} {o : Options}

/-- **Shortest routes.** On a linked graph, a route from one node to another is found unless one of
them does not exist or no walk leads there. It is a shortest one and passes no node twice, and no
distance in the search outgrows 64 bits: neither those of labels nor those in the arrays and the
heap. -/
theorem Reachable.shortestRoute_of_link (hr : r.Reachable) (hl : (r.link o).result = .ok g)
    (src dest : Nat) :
    (g.shortestRoute? src dest = none ↔
      g.nodeCount ≤ src ∨ g.nodeCount ≤ dest ∨ ∀ edges, ¬ g.Walk src edges dest) ∧
    (∀ p, g.shortestRoute? src dest = some p → p.IsShortest g src dest) ∧
    (src < g.nodeCount → ∀ settled opened, g.Passes src dest settled opened →
      g.Bounded settled opened) ∧
    (src < g.nodeCount → ∀ s, RouteSearch.Leads g dest (.start g src) s → s.Fits g) := by
  have hg := (wires_of_link hl).wellFormed hr.valid
  have hn := nodeCount_le_of_link hl
  refine ⟨hg.shortestRoute?_eq_none_iff hn, fun p => hg.isShortest_of_shortestRoute? hn, ?_, ?_⟩
  · intro hsrc settled opened
    exact hg.bounded_of_passes hn hsrc
  · intro hsrc s hs
    obtain ⟨settled, opened, hp, htells⟩ := RouteSearch.exists_tells hg hn hsrc hs
    exact htells.fits hp hg hn hsrc

/-- A ring with a siding, of which only the curved track is measured. One can go around on the
straight track without getting any farther. -/
def idleRing : String :=
  "sensor A : 0 -> B @ AR : 1 -> NR\nswitch B : 1 -> P/(Q) @ M -> AR\nsep P -> C @ PR -> M\n" ++
    "sep Q -> C @ QR -> M\nswitch D : 2 -> PR/(QR) @ C -> N\nsep N -> A @ NR -> D\ndist B Q 7mm"

theorem shortestRoute_idleRing : ∃ r g, Reachable r ∧ (r.link {}).result = .ok g ∧
    g.shortestRoute? 0 10 = some ⟨[0, 2, 6, 5, 10], [0, 2, 8, 7], 0⟩ ∧ g.Follows 10 0 ∧
    (g.shortestRoute? 0 10 = none ↔
      g.nodeCount ≤ 0 ∨ g.nodeCount ≤ 10 ∨ ∀ edges, ¬ g.Walk 0 edges 10) ∧
    (⟨[0, 2, 6, 5, 10], [0, 2, 8, 7], 0⟩ : Route).IsShortest g 0 10 ∧
    0 < g.nodeCount ∧ (∀ settled opened, g.Passes 0 10 settled opened →
      g.Bounded settled opened) ∧
    ∀ s, RouteSearch.Leads g 10 (.start g 0) s → s.Fits g := by
  have h : (TrackPlan.compile idleRing {}).result.toOption.map
      (fun t => (t.graph.shortestRoute? 0 10, t.graph.nodeCount, t.graph.edgeBetween? 10 0)) =
        some (some ⟨[0, 2, 6, 5, 10], [0, 2, 8, 7], 0⟩, 12, some 12) := by
    rw [compile_eq_inserting]
    decide +kernel
  obtain ⟨t, ht, heq⟩ := exists_of_toOption_map h
  simp only [Prod.mk.injEq] at heq
  obtain ⟨hroute, hcount, hclosing⟩ := heq
  obtain ⟨records, -, r, hr, hc⟩ := TrackPlan.compile_eq_ok.1 ht
  obtain ⟨hlink, -⟩ := compile_eq_ok.1 hc
  have hpos : 0 < t.graph.nodeCount := by omega
  obtain ⟨hnone, hshortest, hbounded, hfits⟩ :=
    (reachable_ofRecords hr).shortestRoute_of_link hlink 0 10
  have hg := (wires_of_link hlink).wellFormed (reachable_ofRecords hr).valid
  have hclosed : t.graph.Follows 10 0 := hg.exists_edgeBetween?_iff.1 ⟨12, hclosing⟩
  exact ⟨r, t.graph, reachable_ofRecords hr, hlink, hroute, hclosed, hnone, hshortest _ hroute,
    hpos, hbounded hpos, hfits hpos⟩

end Registry

end TrackPlan
