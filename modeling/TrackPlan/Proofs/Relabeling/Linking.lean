import TrackPlan.Proofs.Graph.Covering
import TrackPlan.Proofs.Relabeling.Declaring
import TrackPlan.Proofs.Relabeling.Graph

/-!
# Relabeled registries are linked alike

Names are looked up in the places, which are relabeled with them; lines order the distances, and
keep their order. So a relabeled registry is linked to the relabeled graph, or fails with the
relabeled error, and gives the relabeled warnings (`Reachable.link_relabel`).
-/

namespace TrackPlan

open Relabeling

variable {ρ : Relabeling}

/-! ## Nodes -/

theorem Decl.locate_relabel (hρ : ρ.Faithful) (d : Decl) (places : List (String × Nat))
    (s : String) :
    (d.relabel ρ).locate (ρ.places places) (ρ.name s) = ρ.result id (d.locate places s) := by
  unfold Decl.locate
  rw [hρ.lookup_places]
  cases places.lookup s <;> rfl

theorem Decl.resolve_relabel (hρ : ρ.Faithful) (d : Decl) (places : List (String × Nat))
    (i : Nat) : (d.relabel ρ).resolve (ρ.places places) i =
      ρ.result (Node.relabel ρ) (d.resolve places i) := by
  have hreverse := d.locate_relabel hρ places d.reverse
  have hkind := result_traverse (d.locate_relabel hρ places) d.kind
  rw [resolve_eq, resolve_eq]
  exact result_bind hreverse fun reverse _ => result_bind hkind fun kind _ => rfl

theorem resolveNodes_relabel (hρ : ρ.Faithful) (places : List (String × Nat))
    (placed : List (Option Decl)) :
    resolveNodes (ρ.places places) (placed.map (Option.map (Decl.relabel ρ))) =
      ρ.result (List.map (Node.relabel ρ)) (resolveNodes places placed) := by
  unfold resolveNodes
  rw [List.zipIdx_map]
  refine result_mapM ?_
  rintro ⟨d?, i⟩ -
  cases d? with
  | none =>
    show Except.ok (Node.dummy i) = Except.ok ((Node.dummy i).relabel ρ)
    unfold Node.relabel Node.dummy
    rw [hρ.name_empty]
  | some d => exact d.resolve_relabel hρ places i

theorem numberEdges_relabel (next : Nat) (nodes : List Node) :
    numberEdges next (nodes.map (Node.relabel ρ)) =
      (numberEdges next nodes).map (Node.relabel ρ) := by
  induction nodes generalizing next with
  | nil => rfl
  | cons n rest ih =>
    rw [List.map_cons, numberEdges, numberEdges, List.map_cons, ← ih]
    rfl

theorem reverseKind_relabel (nodes : Array Node) (src dest : Nat) :
    reverseKind (nodes.map (Node.relabel ρ)) src dest = reverseKind nodes src dest := by
  have hreverse : ∀ i : Nat, ((nodes.map (Node.relabel ρ))[i]?).map Node.reverse =
      nodes[i]?.map Node.reverse := by
    intro i
    rw [Array.getElem?_map, Option.map_map]
    rfl
  have hstraight : ∀ i : Nat, ((nodes.map (Node.relabel ρ))[i]?).bind (·.kind.straight?) =
      nodes[i]?.bind (·.kind.straight?) := by
    intro i
    rw [Array.getElem?_map, Option.bind_map]
    rfl
  unfold reverseKind
  simp only [hreverse, bind, hstraight]

theorem layEdges_relabel (nodes : Array Node) :
    layEdges (nodes.map (Node.relabel ρ)) = layEdges nodes := by
  have hends : edgeEnds (nodes.map (Node.relabel ρ)).toList = edgeEnds nodes.toList := by
    unfold edgeEnds
    rw [Array.toList_map, List.flatMap_map]
    rfl
  unfold layEdges
  rw [hends]
  simp only [reverseKind_relabel]

namespace Registry

variable {r : Registry} {g : Graph} {o : Options}

theorem checkCapacity_relabel :
    (r.relabel ρ).checkCapacity o = ρ.result id (r.checkCapacity o) := by
  have hsize : (if o.nodeLimit < r.slotCount then
      throw (CompileError.tooManyNodes r.slotCount o.nodeLimit) else pure ()) =
        ρ.result id (if o.nodeLimit < r.slotCount then
          throw (CompileError.tooManyNodes r.slotCount o.nodeLimit) else pure ()) := by
    split <;> rfl
  have hcount : (r.relabel ρ).slotCount = r.slotCount := rfl
  have hsensors : (r.relabel ρ).sensors = r.sensors := rfl
  unfold checkCapacity
  simp only [hcount, hsensors, getElem?_decls_relabel]
  cases o.maxSensorAddress with
  | none => exact hsize
  | some limit =>
    dsimp only
    cases r.sensors.find? (fun s => decide (limit < s.1)) with
    | none => exact hsize
    | some s =>
      dsimp only
      cases r.decls[s.2]? with
      | none => exact hsize
      | some d => rfl

theorem placed_relabel :
    (r.relabel ρ).placed = r.placed.map (Option.map (Decl.relabel ρ)) := by
  unfold placed
  rw [List.map_map]
  show r.layout.map _ = _
  refine List.map_congr_left fun index? _ => ?_
  cases index? with
  | none => rfl
  | some i => exact getElem?_decls_relabel i

theorem places_relabel : (r.relabel ρ).places = ρ.places r.places := by
  unfold places Relabeling.places
  rw [placed_relabel, List.zipIdx_map, List.filterMap_map, List.map_filterMap]
  refine List.filterMap_congr ?_
  rintro ⟨d?, i⟩ -
  cases d? <;> rfl

theorem wire_relabel (hρ : ρ.Faithful) :
    (r.relabel ρ).wire = ρ.result (Graph.relabel ρ) r.wire := by
  unfold wire
  dsimp only
  rw [places_relabel, placed_relabel]
  refine result_bind (resolveNodes_relabel hρ r.places r.placed) fun nodes _ => ?_
  rw [numberEdges_relabel, ← List.map_toArray, layEdges_relabel]
  rfl

/-! ## The table of distances -/

theorem locate_relabel (hρ : ρ.Faithful) (places : List (String × Nat)) (line : Nat)
    (name : String) :
    (r.relabel ρ).locate (ρ.places places) (ρ.line line) (ρ.name name) =
      ρ.result (fun p => (p.1, p.2.relabel ρ)) (r.locate places line name) := by
  unfold locate
  rw [hρ.lookup_places, decl?_relabel hρ]
  cases places.lookup name with
  | none => rfl
  | some position => cases r.decl? name <;> rfl

theorem coveredPairs_relabel (hρ : ρ.Faithful) (places : List (String × Nat))
    (d : DistanceDecl) : (r.relabel ρ).coveredPairs (ρ.places places) (d.relabel ρ) =
      ρ.result id (r.coveredPairs places d) := by
  have hlocate := fun s => r.locate_relabel hρ places d.line s
  unfold coveredPairs
  refine result_bind (hlocate d.src) ?_
  rintro ⟨src, srcDecl⟩ -
  refine result_bind (hlocate d.dest) ?_
  rintro ⟨dest, destDecl⟩ -
  refine result_bind (hlocate destDecl.reverse) ?_
  rintro ⟨reverseSrc, -⟩ -
  refine result_bind (hlocate srcDecl.reverse) ?_
  rintro ⟨reverseDest, -⟩ -
  have hmem : (d.relabel ρ).src ∈ (destDecl.relabel ρ).kind.successors ↔
      d.src ∈ destDecl.kind.successors := by
    show ρ.name d.src ∈ (destDecl.kind.map ρ.name).successors ↔ _
    rw [Kind.successors_map, List.mem_map_of_injective hρ.name_inj]
  dsimp only
  simp only [hmem]
  split <;> rfl

end Registry

namespace DistanceTable

variable {t : DistanceTable} {pair : Nat × Nat}

theorem lookup_relabel (t : DistanceTable) (pair : Nat × Nat) :
    (t.relabel ρ).lookup pair = (t.lookup pair).map (DistanceEntry.relabel ρ) := by
  unfold relabel
  induction t with
  | nil => rfl
  | cons e rest ih =>
    rw [List.map_cons, List.lookup_cons, List.lookup_cons, ih]
    cases pair == e.1 <;> rfl

theorem insert_relabel (entry : DistanceEntry) :
    (t.relabel ρ).insert pair (entry.relabel ρ) = (t.insert pair entry).relabel ρ := by
  unfold insert relabel
  rw [List.filter_map, List.map_append]
  rfl

/-- Lines are only compared with each other. -/
theorem redeclared_relabel (hρ : ρ.Faithful) (d : DistanceDecl) :
    (t.relabel ρ).redeclared (d.relabel ρ) pair =
      (t.redeclared d pair).map (Warning.relabel ρ) := by
  unfold redeclared
  rw [lookup_relabel]
  cases t.lookup pair with
  | none => rfl
  | some previous =>
    have hline : ρ.line previous.line ≠ ρ.line d.line ↔ previous.line ≠ d.line :=
      hρ.line_strictMono.injective.ne_iff
    show (if previous.millimeters ≠ d.millimeters ∧ ρ.line previous.line ≠ ρ.line d.line then _
      else _) = _
    simp only [hline]
    split <;> rfl

theorem declare_relabel (hρ : ρ.Faithful) (d : DistanceDecl) (implied : Bool) :
    (t.relabel ρ).declare (d.relabel ρ) pair implied =
      ρ.report (relabel ρ) (t.declare d pair implied) := by
  unfold declare
  refine report_bind (report_warn (redeclared_relabel hρ d)) fun _ _ => ?_
  exact congrArg pure (insert_relabel ⟨d.millimeters, d.line, implied⟩)

end DistanceTable

namespace Registry

variable {r : Registry} {g : Graph} {o : Options}

theorem gatherDistances_relabel (hρ : ρ.Faithful) (places : List (String × Nat))
    (t : DistanceTable) (xs : List DistanceDecl) :
    (r.relabel ρ).gatherDistances (ρ.places places) (t.relabel ρ)
      (xs.map (DistanceDecl.relabel ρ)) =
        ρ.report (DistanceTable.relabel ρ) (r.gatherDistances places t xs) := by
  induction xs generalizing t with
  | nil => rfl
  | cons d rest ih =>
    rw [List.map_cons, gatherDistances, gatherDistances]
    refine report_bind (report_ofExcept (coveredPairs_relabel hρ places d)) ?_
    rintro ⟨declared, implied⟩ -
    refine report_bind (DistanceTable.declare_relabel hρ d false) fun t₁ _ => ?_
    exact report_bind (DistanceTable.declare_relabel hρ d true) fun t₂ _ => ih t₂

theorem distanceTable_relabel (hρ : ρ.Faithful) (places : List (String × Nat)) :
    (r.relabel ρ).distanceTable (ρ.places places) =
      ρ.report (DistanceTable.relabel ρ) (r.distanceTable places) :=
  gatherDistances_relabel hρ places [] r.distances

end Registry

/-! ## Distances of edges -/

/-- Lines keep their order, so entries keep theirs. -/
theorem DistanceEntry.before_relabel (hρ : ρ.Faithful) (a b : (Nat × Nat) × DistanceEntry) :
    before (a.1, a.2.relabel ρ) (b.1, b.2.relabel ρ) = before a b := by
  have hne : ρ.line a.2.line ≠ ρ.line b.2.line ↔ a.2.line ≠ b.2.line :=
    hρ.line_strictMono.injective.ne_iff
  have hlt : ρ.line a.2.line < ρ.line b.2.line ↔ a.2.line < b.2.line :=
    hρ.line_strictMono.lt_iff_lt
  unfold before relabel
  simp only [hne, hlt]

namespace Graph

variable {g : Graph} {entries : List ((Nat × Nat) × DistanceEntry)}

theorem measure_relabel (h : ∀ e ∈ entries, e.1.1 < g.nodeCount ∧ e.1.2 < g.nodeCount) :
    (g.relabel ρ).measure (DistanceTable.relabel ρ entries) =
      ((g.measure entries).1.relabel ρ, (g.measure entries).2.1,
        ρ.result id (g.measure entries).2.2) := by
  induction entries generalizing g with
  | nil => rfl
  | cons entry rest ih =>
    obtain ⟨⟨src, dest⟩, entry⟩ := entry
    obtain ⟨⟨hsrc, hdest⟩, hrest⟩ := List.forall_mem_cons.1 h
    show (g.relabel ρ).measure (((src, dest), entry.relabel ρ) :: DistanceTable.relabel ρ rest) = _
    unfold measure
    rw [edgeBetween?_relabel]
    cases g.edgeBetween? src dest with
    | none =>
      dsimp only
      rw [nameOf_relabel hsrc, nameOf_relabel hdest]
      rfl
    | some edge =>
      have hstep := ih (g := g.setDistance edge entry.millimeters) hrest
      dsimp only
      rw [show (g.relabel ρ).setDistance edge (entry.relabel ρ).millimeters =
        (g.setDistance edge entry.millimeters).relabel ρ from rfl, hstep]

/-- Every edge leads from a node to a node. -/
theorem WellFormed.ends_lt (hg : g.WellFormed) :
    ∀ e ∈ g.edges.toList, e.src < g.nodeCount ∧ e.dest < g.nodeCount :=
  forall_edges_iff.2 fun _ _ he => ⟨hg.src_lt he, hg.dest_lt he⟩

theorem judgeUnmeasured_relabel (measured : List Nat) (required : Bool)
    (h : ∀ e ∈ g.edges.toList, e.src < g.nodeCount ∧ e.dest < g.nodeCount) :
    (g.relabel ρ).judgeUnmeasured measured required =
      ρ.report id (g.judgeUnmeasured measured required) := by
  have hends : ∀ e ∈ g.edges.toList.filter (fun e => !measured.contains e.id),
      (g.relabel ρ).nameOf e.src = ρ.name (g.nameOf e.src) ∧
        (g.relabel ρ).nameOf e.dest = ρ.name (g.nameOf e.dest) := fun e he =>
    have hlt := h e (List.mem_of_mem_filter he)
    ⟨nameOf_relabel hlt.1, nameOf_relabel hlt.2⟩
  unfold judgeUnmeasured
  rw [edges_relabel]
  dsimp only
  split
  · split
    · rfl
    · next e rest hcons =>
      obtain ⟨hsrc, hdest⟩ := hends e (hcons ▸ List.mem_cons_self)
      rw [hsrc, hdest]
      rfl
  · refine report_warn ?_
    rw [List.map_map]
    refine List.map_congr_left fun e he => ?_
    obtain ⟨hsrc, hdest⟩ := hends e he
    rw [hsrc, hdest]
    rfl

/-- Attaching distances to a relabeled graph, where all pairs and edges are of nodes. -/
theorem attach_relabel (hρ : ρ.Faithful) {t : DistanceTable} {required : Bool}
    (ht : ∀ e ∈ t, e.1.1 < g.nodeCount ∧ e.1.2 < g.nodeCount)
    (hg : (g.attach t required).1.WellFormed) :
    (g.relabel ρ).attach (t.relabel ρ) required =
      ((g.attach t required).1.relabel ρ, ρ.report id (g.attach t required).2) := by
  have hsort : (t.relabel ρ).mergeSort DistanceEntry.before =
      DistanceTable.relabel ρ (t.mergeSort DistanceEntry.before) :=
    (List.map_mergeSort fun a _ b _ => (DistanceEntry.before_relabel hρ a b).symm).symm
  have hsorted : ∀ e ∈ t.mergeSort DistanceEntry.before,
      e.1.1 < g.nodeCount ∧ e.1.2 < g.nodeCount := fun e he => ht e (List.mem_mergeSort.1 he)
  have hjudge := judgeUnmeasured_relabel (ρ := ρ) (g := (g.attach t required).1)
    (g.measure (t.mergeSort DistanceEntry.before)).2.1 required hg.ends_lt
  unfold attach at *
  rw [hsort, measure_relabel hsorted]
  refine Prod.ext rfl ?_
  show (do Report.ofExcept (ρ.result id _); (Graph.relabel ρ _).judgeUnmeasured _ required) = _
  exact report_bind (report_ofExcept rfl) fun _ _ => hjudge

end Graph

namespace Registry

variable {r : Registry} {g : Graph} {o : Options} {places : List (String × Nat)}

/-- A located name has a place. -/
theorem lookup_of_locate {line : Nat} {name : String} {p : Nat × Decl}
    (h : r.locate places line name = .ok p) : places.lookup name = some p.1 := by
  unfold locate at h
  split at h
  · next hlookup _ =>
    cases h
    exact hlookup
  · cases h

/-- Whatever holds of all places holds of the nodes in a table of distances. -/
theorem forall_distanceTable {P : Nat → Prop} {t : DistanceTable}
    (hp : ∀ s i, places.lookup s = some i → P i)
    (h : (r.distanceTable places).result = .ok t) : ∀ e ∈ t, P e.1.1 ∧ P e.1.2 := by
  intro e he
  have hkey : e.1 ∈ t.keys := List.mem_map_of_mem he
  rcases (mem_keys_gatherDistances h).1 hkey with hnil | ⟨d, -, named, implied, hpairs, hcase⟩
  · cases hnil
  · obtain ⟨i, _, j, _, hi, hj, j', _, i', _, hj', hi', rfl, rfl⟩ := coveredPairs_eq_ok.1 hpairs
    have hPi := hp _ _ (lookup_of_locate hi)
    have hPj := hp _ _ (lookup_of_locate hj)
    rcases hcase with hnamed | himplied
    · rw [hnamed]
      exact ⟨hPi, hPj⟩
    · rw [himplied]
      split
      · exact ⟨hPj, hPi⟩
      · exact ⟨hp _ _ (lookup_of_locate hj'), hp _ _ (lookup_of_locate hi')⟩

/-- A relabeled registry is linked to the relabeled graph. -/
theorem Valid.link_relabel (hρ : ρ.Faithful) (hv : r.Valid) :
    (r.relabel ρ).link o = ρ.report (Graph.relabel ρ) (r.link o) := by
  unfold link
  refine report_bind (report_ofExcept checkCapacity_relabel) fun _ _ => ?_
  refine report_bind (report_ofExcept (wire_relabel hρ)) fun g hwire => ?_
  have hw := wires_of_wire hwire
  refine report_bind (distanceTable_relabel hρ g.places) fun t htable => ?_
  have hlt := forall_distanceTable (fun s i => hw.lt_of_lookup hv) htable
  rw [Graph.attach_relabel hρ hlt ((hw.attach t o.requireDistances).wellFormed hv)]
  exact report_bind rfl fun _ _ => rfl

end Registry

end TrackPlan
