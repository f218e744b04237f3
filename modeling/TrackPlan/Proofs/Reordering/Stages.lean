import TrackPlan.Proofs.Calibration.Rotation
import TrackPlan.Proofs.Graph.LastDistance
import TrackPlan.Proofs.Reordering.Layout

/-!
# Stages without lines

Lines of records stand in errors and in warnings, and they order the distances. What a stage gives
when it succeeds is told without them, stage by stage: `SameLayout.wire`, `SameLayout.link_eq`,
`build_unnumbered` and `extract_unnumbered`.
-/

namespace TrackPlan

variable {g g' : Graph}

/-! ## Nodes and edges -/

theorem Decl.resolve_unnumbered {d : Decl} {places : List (String × Nat)} {id : Nat} {n : Node} :
    d.unnumbered.resolve places id = .ok n ↔ d.resolve places id = .ok n := by
  rw [Decl.resolve_eq_ok, Decl.resolve_eq_ok]
  exact Iff.rfl

theorem resolveNodes_unnumbered {places : List (String × Nat)} {placed : List (Option Decl)}
    {nodes : List Node} :
    resolveNodes places (placed.map (Option.map Decl.unnumbered)) = .ok nodes ↔
      resolveNodes places placed = .ok nodes := by
  unfold resolveNodes
  rw [List.zipIdx_map, mapM_eq_ok_iff, mapM_eq_ok_iff, List.forall₂_map_left_iff]
  refine iff_of_eq (congrArg (fun R => List.Forall₂ R placed.zipIdx nodes) ?_)
  funext ⟨d?, id⟩ n
  cases d? with
  | none => rfl
  | some d => exact propext Decl.resolve_unnumbered

namespace Registry

variable {r r' : Registry}

/-- Places are told without lines. -/
theorem places_eq_of_placed
    (h : r.placed.map (Option.map Decl.unnumbered) = r'.placed.map (Option.map Decl.unnumbered)) :
    r.places = r'.places := by
  have hplaces : ∀ r : Registry, r.places =
      (r.placed.map (Option.map Decl.unnumbered)).zipIdx.filterMap fun x =>
        x.1.map fun d => (d.name, x.2) := by
    intro r
    unfold places
    rw [List.zipIdx_map, List.filterMap_map]
    apply List.filterMap_congr
    rintro ⟨d?, p⟩ -
    cases d? <;> rfl
  rw [hplaces r, hplaces r', h]

/-- Two registries with the same layout, apart from lines. -/
structure SameLayout (r r' : Registry) : Prop where
  placed_eq : r.placed.map (Option.map Decl.unnumbered) =
    r'.placed.map (Option.map Decl.unnumbered)
  length_eq : r.sensors.length = r'.sensors.length
  sensorSlots_eq : r.sensorSlots = r'.sensorSlots

/-- Registries with the same layout make the same graph. -/
theorem SameLayout.wire (h : r.SameLayout r') (hw : r.wire = .ok g) : r'.wire = .ok g := by
  obtain ⟨nodes, hnodes, rfl⟩ := wire_eq_ok.1 hw
  have hplaces := places_eq_of_placed h.placed_eq
  refine wire_eq_ok.2 ⟨nodes, ?_, by rw [hplaces, h.length_eq, h.sensorSlots_eq]⟩
  rwa [← resolveNodes_unnumbered, ← h.placed_eq, resolveNodes_unnumbered, ← hplaces]

end Registry

/-! ## Distances -/

/-- The edge without its distance. -/
def Edge.bare (e : Edge) : Edge := { e with distance := 0 }

theorem Edge.eq_of_bare {e e' : Edge} (h : e.bare = e'.bare) (hd : e.distance = e'.distance) :
    e = e' := by
  cases e
  cases e'
  cases h
  cases hd
  rfl

theorem Edge.ends_of_bare {e e' : Edge} (h : e.bare = e'.bare) :
    e.src = e'.src ∧ e.dest = e'.dest := by
  cases e
  cases e'
  cases h
  exact ⟨rfl, rfl⟩

namespace Graph

/-- The graph without its distances. -/
def bare (g : Graph) : Graph := { g with edges := g.edges.map Edge.bare }

theorem edge?_bare (k : Nat) : g.bare.edge? k = (g.edge? k).map Edge.bare :=
  Array.getElem?_map

/-- Graphs are the same if their parts are. -/
theorem eq_of_parts (hnodes : g.nodes = g'.nodes) (hedge : ∀ k, g.edge? k = g'.edge? k)
    (hplaces : g.places = g'.places) (hcount : g.sensorCount = g'.sensorCount)
    (hslots : g.sensorSlots = g'.sensorSlots) : g = g' := by
  have hedges : g.edges = g'.edges := Array.ext_getElem? fun k => hedge k
  cases g
  cases g'
  cases hnodes
  cases hedges
  cases hplaces
  cases hcount
  cases hslots
  rfl

theorem bare_setDistance (edge : Nat) (mm : UInt32) : (g.setDistance edge mm).bare = g.bare := by
  refine eq_of_parts rfl (fun k => ?_) rfl rfl rfl
  rw [edge?_bare, edge?_bare, edge?_setDistance, Option.map_map]
  congr 1
  funext e
  dsimp only [Function.comp_apply]
  split <;> rfl

theorem bare_measure (entries : List ((Nat × Nat) × DistanceEntry)) :
    (g.measure entries).1.bare = g.bare := by
  induction entries generalizing g with
  | nil => rfl
  | cons entry rest ih =>
    obtain ⟨⟨src, dest⟩, entry⟩ := entry
    unfold measure
    cases g.edgeBetween? src dest with
    | none => rfl
    | some edge => exact ih.trans (bare_setDistance edge entry.millimeters)

theorem nodes_eq_of_bare (h : g.bare = g'.bare) : g.nodes = g'.nodes := by
  show g.bare.nodes = g'.bare.nodes
  rw [h]

theorem places_eq_of_bare (h : g.bare = g'.bare) : g.places = g'.places := by
  show g.bare.places = g'.bare.places
  rw [h]

/-- Graphs with the same distances that are the same without distances are the same. -/
theorem eq_of_bare (h : g.bare = g'.bare) (hd : ∀ k e e', g.edge? k = some e →
    g'.edge? k = some e' → e.bare = e'.bare → e.distance = e'.distance) : g = g' := by
  have hcount := congrArg sensorCount h
  have hslots := congrArg sensorSlots h
  refine eq_of_parts (nodes_eq_of_bare h) (fun k => ?_) (places_eq_of_bare h) hcount hslots
  have hk : (g.edge? k).map Edge.bare = (g'.edge? k).map Edge.bare := by
    rw [← edge?_bare, ← edge?_bare, h]
  cases he : g.edge? k with
  | none =>
    rw [he, Option.map_none, eq_comm, Option.map_eq_none_iff] at hk
    exact hk.symm
  | some e =>
    rw [he, Option.map_some, eq_comm, Option.map_eq_some_iff] at hk
    obtain ⟨e', he', hbare⟩ := hk
    rw [he', Edge.eq_of_bare hbare.symm (hd k e e' he he' hbare.symm)]

/-- What records cover is told by the nodes. -/
theorem lastDistance_congr (hnodes : g.nodes = g'.nodes) (hplaces : g.places = g'.places)
    (xs : List DistanceDecl) (pair : Nat × Nat) :
    g.lastDistance xs pair = g'.lastDistance xs pair := by
  unfold lastDistance coveredPairs successors reverse? nodeId? node?
  rw [hnodes, hplaces]

theorem lastDistance_unnumbered (xs : List DistanceDecl) :
    g.lastDistance (xs.map DistanceDecl.unnumbered) = g.lastDistance xs := by
  funext pair
  unfold lastDistance
  rw [List.filter_map, List.getLast?_map, Option.map_map]
  rfl

end Graph

namespace Registry

variable {r r' : Registry} {records records' : List LineRecord} {o : Options}

theorem bare_of_link (h : (r.link o).result = .ok g) :
    ∃ g₀, r.wire = .ok g₀ ∧ g.bare = g₀.bare ∧ ∀ a b, g.edgeBetween? a b = g₀.edgeBetween? a b := by
  obtain ⟨-, g₀, hg₀, t, -, -, rfl⟩ := link_eq_ok.1 h
  exact ⟨g₀, hg₀, Graph.bare_measure _, fun _ _ => Graph.edgeBetween?_measure⟩

/-- Registries with the same layout, apart from lines, and the same last distances are linked to the
same graph. -/
theorem SameLayout.link_eq (h : r.SameLayout r') (hd : r.Draws g records)
    (hd' : r'.Draws g' records') (hl : (r.link o).result = .ok g)
    (hl' : (r'.link o).result = .ok g')
    (hx : g.lastDistance (records.filterMap LineRecord.distance?) =
      g.lastDistance (records'.filterMap LineRecord.distance?)) : g = g' := by
  obtain ⟨g₀, hw, hbare, hbetween⟩ := bare_of_link hl
  obtain ⟨g₁, hw', hbare', hbetween'⟩ := bare_of_link hl'
  -- before distances, both are made of the one layout
  obtain rfl : g₀ = g₁ := Except.ok.inj ((h.wire hw).symm.trans hw')
  have hsame := hbare.trans hbare'.symm
  refine Graph.eq_of_bare hsame fun k e e' he he' hee => ?_
  obtain ⟨hsrc, hdest⟩ := Edge.ends_of_bare hee
  rw [hd.distance_eq hl he, hd'.distance_eq hl' he', hbetween, hbetween', hsrc, hdest, hx,
    Graph.lastDistance_congr (Graph.nodes_eq_of_bare hsame) (Graph.places_eq_of_bare hsame)]

end Registry

/-! ## Mutex groups -/

theorem Graph.mutexSeed_unnumbered {m : MutexDecl} {s : EdgeSet} :
    g.mutexSeed m.unnumbered = .ok s ↔ g.mutexSeed m = .ok s := by
  unfold mutexSeed
  simp only [map_eq_ok_iff, mapM_eq_ok_iff, edgeFromNames_eq_ok]
  exact Iff.rfl

theorem MutexTable.build_unnumbered {decls : List MutexDecl} {t : MutexTable} :
    (build g (decls.map MutexDecl.unnumbered)).result = .ok t ↔ (build g decls).result = .ok t := by
  rw [build_eq, build_eq]
  simp only [Report.result_map_eq_ok_iff, Graph.mutexSets_eq_ok, List.forall₂_map_left_iff,
    Graph.mutexSeed_unnumbered]

/-! ## The loop -/

namespace Calibration

variable {steps : List LoopStep} {lines lines' nodes edges : List Nat} {l : Option Loop}

theorem openSteps_unnumbered :
    openSteps (steps.map LoopStep.unnumbered) = (openSteps steps).map LoopStep.unnumbered := by
  unfold openSteps
  rw [List.length_map, List.head?_map, List.getLast?_map, Option.map_map, Option.map_map,
    show LoopStep.node ∘ LoopStep.unnumbered = LoopStep.node from rfl]
  split
  · rw [List.map_dropLast]
  · rfl

theorem locate_mapM_unnumbered : (steps.map LoopStep.unnumbered).mapM (locate g) = .ok nodes ↔
    steps.mapM (locate g) = .ok nodes := by
  rw [mapM_eq_ok_iff, mapM_eq_ok_iff, List.forall₂_map_left_iff]
  simp only [locate_eq_ok]
  exact Iff.rfl

theorem extract_eq_ok_none_iff : extract g steps = .ok none ↔ openSteps steps = [] := by
  unfold extract
  cases openSteps steps with
  | nil => exact iff_of_true rfl rfl
  | cons first rest =>
    refine iff_of_false (fun h => ?_) (List.cons_ne_nil first rest)
    simp only [bind_eq_ok_iff] at h
    obtain ⟨nodes, -, edges, -, h⟩ := h
    split at h <;> cases h

/-- The loop is told without lines. -/
theorem extract_unnumbered :
    extract g (steps.map LoopStep.unnumbered) = .ok l ↔ extract g steps = .ok l := by
  cases l with
  | none =>
    rw [extract_eq_ok_none_iff, extract_eq_ok_none_iff, openSteps_unnumbered, List.map_eq_nil_iff]
  | some loop =>
    rw [extract_eq_ok_some_iff, extract_eq_ok_some_iff, openSteps_unnumbered,
      locate_mapM_unnumbered, ne_eq, List.map_eq_nil_iff]
    refine and_congr_right fun _ => and_congr_right fun hnodes => and_congr_left' ?_
    have hlines := length_lines hnodes
    rw [edgesAround_eq_ok_iff hlines, edgesAround_eq_ok_iff (by simpa using hlines)]

end Calibration

end TrackPlan
