import TrackPlan.Proofs.Graph.RequiredDistances
import TrackPlan.Proofs.Route.Heap

/-!
# Routes travelled the other way

Where every edge has a reverse edge of its own length (`Graph.MeasuredBothWays`), a walk can be
travelled the other way, edge by edge (`Walk.exists_reversed`). So the shortest routes from one node
to another are as long as those from the reverse of the other to the reverse of the one.
-/

namespace TrackPlan

namespace Graph

/-- Every edge has a reverse edge that is as long. -/
def MeasuredBothWays (g : Graph) : Prop := ∀ k e, g.edge? k = some e → ∃ r f,
  g.edge? r = some f ∧ g.reverse? e.dest = some f.src ∧ g.reverse? e.src = some f.dest ∧
    f.distance = e.distance

variable {g : Graph} {a b a' b' d : Nat} {edges : List Edge}

/-- The reverse edges of a walk, the last one first, are a walk of the same length. -/
theorem Walk.exists_reversed (h : g.Walk a edges b) (hm : g.MeasuredBothWays)
    (ha : g.reverse? a = some a') (hb : g.reverse? b = some b') :
    ∃ back, g.Walk b' back a' ∧ walkLength back = walkLength edges := by
  induction h generalizing a' with
  | nil =>
    rw [ha, Option.some.injEq] at hb
    subst hb
    exact ⟨[], .nil a', rfl⟩
  | @cons k _ e rest he _ ih =>
    obtain ⟨r, f, hf, hdest, hsrc, hlength⟩ := hm k e he
    obtain ⟨back, hback, hsame⟩ := ih hdest hb
    rw [hsrc, Option.some.injEq] at ha
    subst ha
    refine ⟨back ++ [f], hback.concat hf, ?_⟩
    rw [walkLength_append, walkLength_cons, walkLength_cons, walkLength_nil, hsame, hlength]
    omega

/-- It is as far from one node to another as between their reverses, the other way. -/
theorem IsDistance.reversed (h : g.IsDistance a b d) (hg : g.Mirrored) (hm : g.MeasuredBothWays)
    (ha : g.reverse? a = some a') (hb : g.reverse? b = some b') : g.IsDistance b' a' d where
  exists_walk := by
    obtain ⟨edges, hw, rfl⟩ := h.exists_walk
    exact hw.exists_reversed hm ha hb
  le_walk := by
    intro edges hw
    obtain ⟨back, hback, hsame⟩ :=
      hw.exists_reversed hm (hg.reverse?_symm hb) (hg.reverse?_symm ha)
    rw [← hsame]
    exact h.le_walk back hback

theorem WellFormed.reverse?_lt (hg : g.WellFormed) (ha : g.reverse? a = some a') :
    a' < g.nodeCount := by
  obtain ⟨n, hn, rfl⟩ := Option.map_eq_some_iff.1 ha
  exact hg.reverse_lt hn

/-- A route is found the other way, too. -/
theorem WellFormed.exists_shortestRoute?_reversed (hg : g.WellFormed)
    (hn : g.nodeCount ≤ nodeCeiling) (hm : g.MeasuredBothWays)
    (ha : g.reverse? a = some a') (hb : g.reverse? b = some b')
    (h : ∃ p, g.shortestRoute? a b = some p) : ∃ p, g.shortestRoute? b' a' = some p := by
  obtain ⟨p, hp⟩ := h
  obtain ⟨edges, hw, -⟩ := (hg.isDistance_of_shortestRoute? hn hp).exists_walk
  obtain ⟨back, hback, -⟩ := hw.exists_reversed hm ha hb
  exact (hg.exists_shortestRoute?_iff hn (hg.reverse?_lt hb) (hg.reverse?_lt ha)).2 ⟨back, hback⟩

end Graph

variable {r : Registry} {g : Graph} {records : List LineRecord} {o : Options}

/-- Where distances are required, a graph is measured both ways. -/
theorem Registry.Draws.measuredBothWays (hd : r.Draws g records) (h : (r.link o).result = .ok g)
    (hr : g.Reversible) (ho : o.requireDistances = true) : g.MeasuredBothWays := by
  obtain ⟨hforked, -⟩ := hd.covered_of_link h hr ho
  have hlast : ∀ k e, g.edge? k = some e → e.distance =
      g.lastDistance (records.filterMap LineRecord.distance?) (e.src, e.dest) := by
    intro k e he
    rw [hd.distance_eq h he, if_pos (hforked.edgeBetween?_eq hd.wellFormed he)]
  intro k e he
  obtain ⟨j, f, -, hf, hdest, hsrc⟩ := hd.wellFormed.exists_reverseEdge? hr he
  refine ⟨j, f, hf, hdest, hsrc, ?_⟩
  rw [hlast k e he, hlast j f hf]
  exact hd.mirrored.lastDistance_reverse hsrc hdest

/-- **Routes reverse.** Where distances are required, there is a route from one node of a compiled
track to another just if there is one from the reverse of the other to the reverse of the one, and
then both are equally long. -/
theorem reversedRoute_of_compile {text : String} {t : Track} (ho : o.requireDistances = true)
    (h : (compile text o).result = .ok t) {a b : Nat} (ha : a < t.graph.nodeCount)
    (hb : b < t.graph.nodeCount) :
    ∃ a' b', t.graph.reverse? a = some a' ∧ t.graph.reverse? b = some b' ∧
      ((∃ p, t.graph.shortestRoute? a b = some p) ↔ ∃ q, t.graph.shortestRoute? b' a' = some q) ∧
      ∀ p q, t.graph.shortestRoute? a b = some p → t.graph.shortestRoute? b' a' = some q →
        p.distance = q.distance := by
  obtain ⟨records, r, hs⟩ := exists_stages_of_compile h
  have hm := hs.draws.measuredBothWays hs.link hs.reversible ho
  have hcount := hs.nodeCount_le
  obtain ⟨n, hn⟩ := Graph.WellFormed.exists_node ha
  obtain ⟨m, hm'⟩ := Graph.WellFormed.exists_node hb
  have hra : t.graph.reverse? a = some n.reverse := by rw [Graph.reverse?, hn, Option.map_some]
  have hrb : t.graph.reverse? b = some m.reverse := by rw [Graph.reverse?, hm', Option.map_some]
  refine ⟨n.reverse, m.reverse, hra, hrb, ⟨?_, ?_⟩, ?_⟩
  · exact hs.wellFormed.exists_shortestRoute?_reversed hcount hm hra hrb
  · exact hs.wellFormed.exists_shortestRoute?_reversed hcount hm (hs.mirrored.reverse?_symm hrb)
      (hs.mirrored.reverse?_symm hra)
  · intro p q hp hq
    have hdist :=
      (hs.wellFormed.isDistance_of_shortestRoute? hcount hp).reversed hs.mirrored hm hra hrb
    exact hdist.unique (hs.wellFormed.isDistance_of_shortestRoute? hcount hq)

/-- A siding between two ends of the track; the curved track of it is longer. -/
def siding : String :=
  "enter E1 -> B @ X1\nswitch B : 1 -> P/(N) @ M -> X1\nsep P -> N @ P2 -> M\n" ++
    "switch C : 2 -> P2/(M) @ N -> X2\nenter E2 -> C @ X2\n" ++
    "dist E1 B 10mm\ndist B P 20mm\ndist P N 20mm\ndist B N 50mm\ndist N X2 10mm"

theorem reversedRoute_siding : ({ requireDistances := true } : Options).requireDistances = true ∧
    ∃ t, (compile siding { requireDistances := true }).result = .ok t ∧
      4 < t.graph.nodeCount ∧ 7 < t.graph.nodeCount ∧
      (t.graph.shortestRoute? 4 7).map Route.distance = some 60 ∧
      ∃ a' b', t.graph.reverse? 4 = some a' ∧ t.graph.reverse? 7 = some b' ∧
        ((∃ p, t.graph.shortestRoute? 4 7 = some p) ↔
          ∃ q, t.graph.shortestRoute? b' a' = some q) ∧
        ∀ p q, t.graph.shortestRoute? 4 7 = some p → t.graph.shortestRoute? b' a' = some q →
          p.distance = q.distance := by
  have h : (compile siding { requireDistances := true }).result.toOption.map (fun t =>
      (t.graph.nodeCount, (t.graph.shortestRoute? 4 7).map Route.distance)) =
        some (10, some 60) := by
    rw [compile_eq_inserting]
    decide +kernel
  obtain ⟨t, ht, hg⟩ := exists_of_toOption_map h
  obtain ⟨hcount, hroute⟩ := Prod.mk.inj hg
  have hfour : 4 < t.graph.nodeCount := by omega
  have hseven : 7 < t.graph.nodeCount := by omega
  exact ⟨rfl, t, ht, hfour, hseven, hroute, reversedRoute_of_compile rfl ht hfour hseven⟩

end TrackPlan
