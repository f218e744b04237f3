import TrackPlan.Proofs.Graph.Laying
import TrackPlan.Proofs.Kind
import TrackPlan.Proofs.Registry.Layout

/-!
# What linking makes of a registry

`Registry.Wires r g` says that the graph `g` is made of the registry `r`, whatever its distances:
every place of the layout has its node, with all names looked up (`Resolved`), and the edges are
laid in the order of the nodes. `wires_of_wire` is the graph before distances, `Wires.attach` says
that attaching distances changes nothing else, and `wires_of_link` puts the two together.
-/

namespace TrackPlan

/-- What stands at a position of the graph for a place of the layout. -/
def Resolved (places : List (String × Nat)) (i : Nat) : Option Decl → Node → Prop
  | none, n => n.id = i ∧ n.name = "" ∧ n.reverse = i ∧ n.kind = .dummy
  | some d, n => n.id = i ∧ n.name = d.name ∧ places.lookup d.reverse = some n.reverse ∧
      d.kind.Related (fun s p => places.lookup s = some p) n.kind

/-- The position of a name that a declaration mentions. -/
def Decl.locate (d : Decl) (places : List (String × Nat)) (name : String) :
    Except CompileError Nat :=
  match places.lookup name with
  | some position => .ok position
  | none => .error (.unknownName d.line name)

theorem Decl.locate_eq_ok {d : Decl} {places : List (String × Nat)} {s : String} {p : Nat} :
    d.locate places s = .ok p ↔ places.lookup s = some p := by
  unfold Decl.locate
  cases places.lookup s <;> simp

theorem Decl.resolve_eq (d : Decl) (places : List (String × Nat)) (id : Nat) :
    d.resolve places id = (do
      let reverse ← d.locate places d.reverse
      let kind ← d.kind.traverse (d.locate places)
      return ⟨id, d.name, reverse, kind, []⟩) := rfl

theorem Decl.resolve_eq_ok {d : Decl} {places : List (String × Nat)} {id : Nat} {n : Node} :
    d.resolve places id = .ok n ↔ Resolved places id (some d) n ∧ n.edges = [] := by
  rw [Decl.resolve_eq]
  simp only [bind_eq_ok_iff, Kind.traverse_eq_ok_iff, Decl.locate_eq_ok, pure_eq_ok_iff]
  constructor
  · intro h
    obtain ⟨reverse, hr, kind, hk, rfl⟩ := h
    exact ⟨⟨rfl, rfl, hr, hk⟩, rfl⟩
  · intro h
    obtain ⟨⟨hid, hname, hr, hk⟩, he⟩ := h
    exact ⟨_, hr, _, hk, by rw [← hid, ← hname, ← he]⟩

/-- Every place has its node. -/
theorem getElem?_of_resolveNodes {places : List (String × Nat)} {placed : List (Option Decl)}
    {nodes : List Node} (h : resolveNodes places placed = .ok nodes) :
    nodes.length = placed.length ∧ ∀ i n, nodes[i]? = some n →
      ∃ d?, placed[i]? = some d? ∧ Resolved places i d? n := by
  have hall := mapM_eq_ok_iff.1 h
  have hlen := hall.length_eq
  rw [List.length_zipIdx] at hlen
  refine ⟨hlen.symm, fun i n hn => ?_⟩
  obtain ⟨hi, rfl⟩ := List.getElem?_eq_some_iff.1 hn
  have hi' : i < placed.length := hlen ▸ hi
  refine ⟨placed[i], List.getElem?_eq_getElem hi', ?_⟩
  have hget := (List.forall₂_iff_get.1 hall).2 i (by simpa using hi') hi
  simp only [List.get_eq_getElem, List.getElem_zipIdx, Nat.zero_add] at hget
  cases hd : placed[i] with
  | none =>
    rw [hd, Except.ok.injEq] at hget
    rw [← hget]
    exact ⟨rfl, rfl, rfl, rfl⟩
  | some d =>
    rw [hd] at hget
    exact (Decl.resolve_eq_ok.1 hget).1

/-- The graph is made of the registry, whatever its distances. -/
structure Registry.Wires (r : Registry) (g : Graph) : Prop where
  places_eq : g.places = r.places
  nodeCount_eq : g.nodeCount = r.slotCount
  sensorCount_eq : g.sensorCount = r.sensors.length
  sensorSlots_eq : g.sensorSlots = r.sensorSlots
  resolved : ∀ i n, g.node? i = some n → ∃ d?, r.placed[i]? = some d? ∧ Resolved g.places i d? n
  numbered : Numbered g.nodes.toList
  edge_id : ∀ k e, g.edge? k = some e → e.id = k
  edge_iff : ∀ k src slot dest,
    (∃ e, g.edge? k = some e ∧ e.src = src ∧ e.slot = slot ∧ e.dest = dest) ↔
      ∃ n, g.node? src = some n ∧ n.kind.successors[slot]? = some dest ∧
        k = edgeStart g.nodes.toList src + slot

namespace Registry

variable {r : Registry} {g : Graph}

theorem wire_eq_ok : r.wire = .ok g ↔ ∃ nodes, resolveNodes r.places r.placed = .ok nodes ∧
    (⟨(numberEdges 0 nodes).toArray, layEdges (numberEdges 0 nodes).toArray, r.places,
      r.sensors.length, r.sensorSlots⟩ : Graph) = g := by
  unfold wire
  simp only [bind_eq_ok_iff, pure_eq_ok_iff]

theorem wires_of_wire (h : r.wire = .ok g) : r.Wires g := by
  obtain ⟨nodes, hn, rfl⟩ := wire_eq_ok.1 h
  obtain ⟨hlen, hres⟩ := getElem?_of_resolveNodes hn
  have hnode : ∀ (i : Nat) (n : Node), (numberEdges 0 nodes)[i]? = some n →
      ∃ d?, r.placed[i]? = some d? ∧ Resolved r.places i d? n := by
    intro i n hi
    rw [getElem?_numberEdges] at hi
    obtain ⟨m, hm, rfl⟩ := Option.map_eq_some_iff.1 hi
    obtain ⟨d?, hd, hr⟩ := hres i m hm
    exact ⟨d?, hd, by cases d? <;> exact hr⟩
  have hid : ∀ (i : Nat) (n : Node), (numberEdges 0 nodes)[i]? = some n → n.id = i := by
    intro i n hi
    obtain ⟨d?, -, hr⟩ := hnode i n hi
    cases d? <;> exact hr.1
  refine ⟨rfl, ?_, rfl, rfl, fun i n hi => hnode i n (by simpa [Graph.node?] using hi),
    numbered_numberEdges nodes, fun k e he => ?_, fun k src slot dest => ?_⟩
  · show (numberEdges 0 nodes).length = r.slotCount
    rw [length_numberEdges, hlen, length_placed]
  · obtain ⟨src, slot, dest, -, rfl⟩ := layEdges_eq_some_iff.1 he
    rfl
  · constructor
    · intro hx
      obtain ⟨e, he, rfl, rfl, rfl⟩ := hx
      obtain ⟨src, slot, dest, hends, rfl⟩ := layEdges_eq_some_iff.1 he
      obtain ⟨i, n, hi, rfl, hs, hk⟩ := edgeEnds_eq_some_iff.1 hends
      obtain rfl := hid i n hi
      exact ⟨n, by simpa [Graph.node?] using hi, hs, hk⟩
    · intro hx
      obtain ⟨n, hsrc, hs, hk⟩ := hx
      have hsrc : (numberEdges 0 nodes)[src]? = some n := by simpa [Graph.node?] using hsrc
      have hends := edgeEnds_eq_some_iff.2 ⟨src, n, hsrc, hid src n hsrc, hs, hk⟩
      exact ⟨_, layEdges_eq_some_iff.2 ⟨src, slot, dest, hends, rfl⟩, rfl, rfl, rfl⟩

end Registry

/-! ## Distances change nothing else -/

namespace Graph

variable {g : Graph}

@[simp] theorem nodes_setDistance (edge : Nat) (mm : UInt32) :
    (g.setDistance edge mm).nodes = g.nodes := rfl

@[simp] theorem node?_setDistance (edge : Nat) (mm : UInt32) (i : Nat) :
    (g.setDistance edge mm).node? i = g.node? i := rfl

theorem edge?_setDistance (edge : Nat) (mm : UInt32) (k : Nat) :
    (g.setDistance edge mm).edge? k =
      (g.edge? k).map fun e => if edge = k then { e with distance := mm } else e := by
  unfold setDistance edge?
  rw [Array.getElem?_modify]
  split
  · rfl
  · simp

end Graph

namespace Registry

variable {r : Registry} {g : Graph}

theorem Wires.setDistance (h : r.Wires g) (edge : Nat) (mm : UInt32) :
    r.Wires (g.setDistance edge mm) where
  places_eq := h.places_eq
  nodeCount_eq := h.nodeCount_eq
  sensorCount_eq := h.sensorCount_eq
  sensorSlots_eq := h.sensorSlots_eq
  resolved := h.resolved
  numbered := h.numbered
  edge_id := by
    intro k e he
    rw [Graph.edge?_setDistance] at he
    obtain ⟨f, hf, rfl⟩ := Option.map_eq_some_iff.1 he
    rw [← h.edge_id k f hf]
    split <;> rfl
  edge_iff := by
    intro k src slot dest
    rw [Graph.node?_setDistance, Graph.nodes_setDistance, ← h.edge_iff, Graph.edge?_setDistance]
    constructor
    · intro hs
      obtain ⟨e, he, rfl, rfl, rfl⟩ := hs
      obtain ⟨f, hf, rfl⟩ := Option.map_eq_some_iff.1 he
      exact ⟨f, hf, by split <;> rfl, by split <;> rfl, by split <;> rfl⟩
    · intro hs
      obtain ⟨e, he, rfl, rfl, rfl⟩ := hs
      rw [he, Option.map_some]
      exact ⟨_, rfl, by split <;> rfl, by split <;> rfl, by split <;> rfl⟩

theorem Wires.measure (h : r.Wires g) (entries : List ((Nat × Nat) × DistanceEntry)) :
    r.Wires (g.measure entries).1 := by
  induction entries generalizing g with
  | nil => exact h
  | cons entry rest ih =>
    obtain ⟨⟨src, dest⟩, entry⟩ := entry
    unfold Graph.measure
    cases g.edgeBetween? src dest with
    | none => exact h
    | some edge => exact ih (h.setDistance edge entry.millimeters)

/-- Attaching distances keeps everything else, also when it fails. -/
theorem Wires.attach (h : r.Wires g) (t : DistanceTable) (required : Bool) :
    r.Wires (g.attach t required).1 := h.measure _

/-- Linking, stage by stage. -/
theorem link_eq_ok {o : Options} : (r.link o).result = .ok g ↔
    r.checkCapacity o = .ok () ∧ ∃ g₀, r.wire = .ok g₀ ∧
      ∃ t, (r.distanceTable g₀.places).result = .ok t ∧
        (g₀.attach t o.requireDistances).2.result = .ok () ∧
          (g₀.attach t o.requireDistances).1 = g := by
  unfold link
  simp only [Report.result_bind_eq_ok_iff, Report.result_ofExcept, Report.result_pure,
    Except.ok.injEq]
  constructor
  · intro h
    obtain ⟨⟨⟩, hc, g₀, hg, t, ht, ⟨⟩, ha, rfl⟩ := h
    exact ⟨hc, g₀, hg, t, ht, ha, rfl⟩
  · intro h
    obtain ⟨hc, g₀, hg, t, ht, ha, rfl⟩ := h
    exact ⟨(), hc, g₀, hg, t, ht, (), ha, rfl⟩

theorem wires_of_link {o : Options} (h : (r.link o).result = .ok g) : r.Wires g := by
  obtain ⟨-, g₀, hg, t, -, -, rfl⟩ := link_eq_ok.1 h
  exact (wires_of_wire hg).attach t o.requireDistances

end Registry

end TrackPlan
