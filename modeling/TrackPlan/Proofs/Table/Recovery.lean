import TrackPlan.Proofs.Graph.LastDistance
import TrackPlan.Proofs.Record.Reading
import TrackPlan.Proofs.Table.Consistency

/-!
# A table tells the whole track

A table leaves out edge numbers, sources and successors, and has one number for what addresses and
switch numbers are. Nothing of this is lost.

1. The entries, row after row, are the edges in their order, so an edge is its position, the row it
   stands in and its entry (`edges_eq_of_ofTrack_eq`).
2. A node is its row and the edges that leave it (`nodes_eq_of_ofTrack_eq`).
3. Only dummies have no name, so a row is found by its name where the node is
   (`index_of_nodeByName?`).

`recovery_of_compile` puts these together.
-/

namespace TrackPlan

/-- The number of a kind: the address of a sensor, or the number of a switch, else 0. -/
def Kind.number {ρ : Type} (k : Kind ρ) : Nat :=
  ((k.address?.or k.switchNumber?).map UInt32.toNat).getD 0

/-- A kind is its tag, its number and its successors. -/
theorem Kind.ext_of_number {ρ : Type} {k k' : Kind ρ} (htag : k.tag = k'.tag)
    (hnumber : k.number = k'.number) (hsuccessors : k.successors = k'.successors) : k = k' := by
  cases k <;> cases k' <;>
    simp_all [tag, number, address?, switchNumber?, successors, UInt32.toNat_inj]

/-- What a controller needs to know of a track is the same for both. -/
structure Track.Alike (t t' : Track) : Prop where
  nodes_eq : t.graph.nodes = t'.graph.nodes
  edges_eq : t.graph.edges = t'.graph.edges
  sensorSlots_eq : t.graph.sensorSlots = t'.graph.sensorSlots
  nodeId?_eq : ∀ s, t.graph.nodeId? s = t'.graph.nodeId? s
  groupOf?_eq : ∀ e, t.mutexes.groupOf? e = t'.mutexes.groupOf? e
  /-- Both have a loop, with the same sensors and branches, or none has one. -/
  loop_eq : t.loop.map (fun l => (l.sensors, l.branches)) =
    t'.loop.map fun l => (l.sensors, l.branches)

/-! ## What the nodes say -/

namespace Graph.WellFormed

variable {g g' : Graph}

/-- The edges that leave a node are those among all edges that have it as their source. -/
theorem outgoing_eq_filter (hg : g.WellFormed) (a : Nat) :
    g.outgoing a = g.edges.toList.filter fun e => e.src = a := by
  have hascending : (g.outgoing a).Pairwise EdgeBefore :=
    hg.outgoing_ascending.imp_of_mem fun he hf hslot =>
      Or.inr ⟨(hg.mem_outgoing_iff.1 he).2.trans (hg.mem_outgoing_iff.1 hf).2.symm, hslot⟩
  apply List.Pairwise.eq_of_mem_iff hascending (hg.pairwise_edges.filter _)
  intro e
  rw [hg.mem_outgoing_iff, List.mem_filter, decide_eq_true_iff]
  refine and_congr_left fun _ => ⟨fun he => ?_, fun he => ?_⟩
  · exact List.mem_of_getElem? (Array.getElem?_toList.trans he)
  · obtain ⟨k, hk⟩ := List.getElem?_of_mem he
    rw [Array.getElem?_toList] at hk
    rw [hg.edge_id hk]
    exact hk

theorem sensorSlots_le_of_nodes (hg : g.WellFormed) (hg' : g'.WellFormed)
    (h : g.nodes = g'.nodes) : g.sensorSlots ≤ g'.sensorSlots := by
  by_contra hlt
  rw [Nat.not_le] at hlt
  -- the node behind the places of sensors is a sensor or a dummy, and neither
  obtain ⟨n, hn⟩ := exists_node (Nat.lt_of_lt_of_le hlt hg.sensorSlots_le)
  have hn' : g'.node? g'.sensorSlots = some n := by
    rw [← hn, node?, node?, h]
  obtain ⟨hsensor, hdummy⟩ := hg'.later_place hn' (Nat.le_refl _)
  rcases hg.sensor_place hn hlt with ⟨ht, -⟩ | ⟨ht, -⟩
  · exact hsensor ht
  · exact hdummy ht

/-- The nodes tell how many places are kept for sensors. -/
theorem sensorSlots_eq_of_nodes (hg : g.WellFormed) (hg' : g'.WellFormed)
    (h : g.nodes = g'.nodes) : g.sensorSlots = g'.sensorSlots :=
  Nat.le_antisymm (hg.sensorSlots_le_of_nodes hg' h) (hg'.sensorSlots_le_of_nodes hg h.symm)

/-- The nodes tell which names are found where. -/
theorem nodeId?_eq_of_nodes (hg : g.WellFormed) (hg' : g'.WellFormed) (h : g.nodes = g'.nodes)
    (s : String) : g.nodeId? s = g'.nodeId? s := by
  ext i
  rw [hg.nodeId?_eq_some_iff, hg'.nodeId?_eq_some_iff]
  unfold node?
  rw [h]

end Graph.WellFormed

/-! ## What the rows say -/

namespace Table

variable {t t' : Track} {name name' : String} {i k : Nat} {e : Edge}

/-- The row of each entry. -/
def sources (t : Table) : List Nat := t.nodes.flatMap fun x => x.edges.map fun _ => x.index

theorem sources_ofTrack (hg : t.graph.WellFormed) :
    (ofTrack name t).sources = t.graph.edges.toList.map Edge.src := by
  rw [← hg.flatMap_outgoing]
  unfold sources ofTrack
  rw [List.flatMap_map, List.map_flatMap]
  apply List.flatMap_congr
  intro n _
  show ((t.graph.outgoing n.id).map (edgeOf t)).map (fun _ => n.id) = _
  rw [List.map_map]
  exact List.map_congr_left fun e he => (hg.mem_outgoing_iff.1 he).2.symm

theorem getElem?_edges_ofTrack (hg : t.graph.WellFormed) (k : Nat) :
    (ofTrack name t).edges[k]? = (t.graph.edge? k).map (edgeOf t) := by
  rw [edges_ofTrack hg, List.getElem?_map, Array.getElem?_toList]
  rfl

theorem getElem?_sources_ofTrack (hg : t.graph.WellFormed) (k : Nat) :
    (ofTrack name t).sources[k]? = (t.graph.edge? k).map Edge.src := by
  rw [sources_ofTrack hg, List.getElem?_map, Array.getElem?_toList]
  rfl

/-- An edge is its position, its source and its entry. -/
theorem edge_ext {e e' : Edge} (hid : e.id = e'.id) (hsrc : e.src = e'.src)
    (hentry : edgeOf t e = edgeOf t' e') : e = e' := by
  obtain ⟨id, src, dest, slot, reverseKind, distance⟩ := e
  obtain ⟨id', src', dest', slot', reverseKind', distance'⟩ := e'
  have hslot : slot = slot' := congrArg TableEdge.slot hentry
  have hdest : dest = dest' := congrArg TableEdge.dest hentry
  have hkind : reverseKind = reverseKind' := congrArg TableEdge.reverseKind hentry
  have hdistance : distance = distance' :=
    UInt32.toNat_inj.1 (congrArg TableEdge.distance hentry)
  simp_all

theorem edges_eq_of_ofTrack_eq (hg : t.graph.WellFormed) (hg' : t'.graph.WellFormed)
    (h : ofTrack name t = ofTrack name' t') : t.graph.edges = t'.graph.edges := by
  refine Array.ext_getElem? fun k => ?_
  show t.graph.edge? k = t'.graph.edge? k
  have hentry := congrArg (·.edges[k]?) h
  have hsource := congrArg (·.sources[k]?) h
  simp only [getElem?_edges_ofTrack hg, getElem?_edges_ofTrack hg', getElem?_sources_ofTrack hg,
    getElem?_sources_ofTrack hg'] at hentry hsource
  cases he : t.graph.edge? k with
  | none =>
    rw [he, Option.map_none, eq_comm, Option.map_eq_none_iff] at hentry
    exact hentry.symm
  | some e =>
    rw [he, Option.map_some, eq_comm, Option.map_eq_some_iff] at hentry
    obtain ⟨e', he', hentry⟩ := hentry
    rw [he, he', Option.map_some, Option.map_some, Option.some.injEq] at hsource
    rw [he', edge_ext ((hg.edge_id he).trans (hg'.edge_id he').symm) hsource hentry.symm]

/-- A node is its row and the edges that leave it. -/
theorem node_ext {n n' : Node} (hg : t.graph.WellFormed) (hg' : t'.graph.WellFormed)
    (hn : t.graph.node? i = some n) (hn' : t'.graph.node? i = some n')
    (hedges : t.graph.edges = t'.graph.edges) (hrow : nodeOf t n = nodeOf t' n') : n = n' := by
  have houtgoing : t.graph.outgoing i = t'.graph.outgoing i := by
    rw [hg.outgoing_eq_filter, hg'.outgoing_eq_filter, hedges]
  have hkind : n.kind = n'.kind := by
    refine Kind.ext_of_number (congrArg TableNode.kind hrow) (congrArg TableNode.num hrow) ?_
    rw [← hg.map_dest_outgoing hn, ← hg'.map_dest_outgoing hn', houtgoing]
  have hlisted : n.edges = n'.edges := by
    rw [← hg.map_id_outgoing hn, ← hg'.map_id_outgoing hn', houtgoing]
  have hid : n.id = n'.id := congrArg TableNode.index hrow
  have hname : n.name = n'.name := congrArg TableNode.name hrow
  have hreverse : n.reverse = n'.reverse := congrArg TableNode.reverse hrow
  cases n
  cases n'
  simp_all

theorem nodes_eq_of_ofTrack_eq (hg : t.graph.WellFormed) (hg' : t'.graph.WellFormed)
    (h : ofTrack name t = ofTrack name' t') : t.graph.nodes = t'.graph.nodes := by
  have hedges := edges_eq_of_ofTrack_eq hg hg' h
  refine Array.ext_getElem? fun i => ?_
  show t.graph.node? i = t'.graph.node? i
  have hrow := congrArg (·.nodes[i]?) h
  simp only [getElem?_ofTrack] at hrow
  cases hn : t.graph.node? i with
  | none =>
    rw [hn, Option.map_none, eq_comm, Option.map_eq_none_iff] at hrow
    exact hrow.symm
  | some n =>
    rw [hn, Option.map_some, eq_comm, Option.map_eq_some_iff] at hrow
    obtain ⟨n', hn', hrow⟩ := hrow
    rw [hn', node_ext hg hg' hn hn' hedges hrow.symm]

/-- Equal tables have equal groups. -/
theorem groupOf?_eq_of_ofTrack_eq {decls decls' : List MutexDecl}
    {firsts free firsts' free' : List Nat} (hg : t.graph.WellFormed) (hg' : t'.graph.WellFormed)
    (hc : t.graph.Components decls t.mutexes firsts free)
    (hc' : t'.graph.Components decls' t'.mutexes firsts' free')
    (h : ofTrack name t = ofTrack name' t') (e : Nat) :
    t.mutexes.groupOf? e = t'.mutexes.groupOf? e := by
  have hedges := edges_eq_of_ofTrack_eq hg hg' h
  by_cases he : e < t.graph.edgeCount
  · have he' : e < t'.graph.edgeCount := by rwa [Graph.edgeCount, ← hedges]
    obtain ⟨k, hk⟩ := hc.exists_groupOf? he
    obtain ⟨k', hk'⟩ := hc'.exists_groupOf? he'
    obtain ⟨f, hf⟩ : ∃ f, t.graph.edge? e = some f := ⟨_, Array.getElem?_eq_getElem he⟩
    have hf' : t'.graph.edge? e = some f := by
      rw [← hf, Graph.edge?, Graph.edge?, hedges]
    have hentry := congrArg (·.edges[e]?) h
    simp only [getElem?_edges_ofTrack hg, getElem?_edges_ofTrack hg', hf, hf', Option.map_some,
      Option.some.injEq] at hentry
    have hid := hg.edge_id hf
    have hgroup := congrArg TableEdge.mutexGroup hentry
    rw [mutexGroup_edgeOf (hid.symm ▸ hk), mutexGroup_edgeOf (hid.symm ▸ hk')] at hgroup
    rw [hk, hk', hgroup]
  · have he' : ¬ e < t'.graph.edgeCount := by rwa [Graph.edgeCount, ← hedges]
    rw [Option.eq_none_iff_forall_ne_some.2 fun k hk => he (hc.lt_of_groupOf? hg hk),
      Option.eq_none_iff_forall_ne_some.2 fun k hk => he' (hc'.lt_of_groupOf? hg' hk)]

/-- Equal tables have equal loops, as far as sensors and branches go. -/
theorem loop_eq_of_ofTrack_eq (h : ofTrack name t = ofTrack name' t') :
    t.loop.map (fun l => (l.sensors, l.branches)) =
      t'.loop.map fun l => (l.sensors, l.branches) := by
  have hloop := congrArg (fun x : Table => x.loop.map fun l => (l.sensors, l.branches)) h
  simpa only [ofTrack, Option.map_map, Function.comp_def] using hloop

end Table

/-! ## Names -/

/-- A word among spelled pieces has a character. -/
theorem Piece.ne_empty_of_spells {ps : List Piece} {cs : List Char} {s : String}
    (h : Spells ps cs) (hs : word s ∈ ps) : s ≠ "" := by
  induction ps generalizing cs with
  | nil => exact absurd hs List.not_mem_nil
  | cons p ps ih =>
    obtain ⟨front, back, -, hfront, hback⟩ := h
    rcases List.mem_cons.1 hs with rfl | hs
    · rintro rfl
      exact hfront.2.1 hfront.1
    · exact ih hback hs

/-- A declaration has its name from its record. -/
theorem Record.word_mem_pieces {entry : LineRecord} {d : Decl} (h : d ∈ entry.halves) :
    Piece.word d.name ∈ entry.record.pieces := by
  obtain ⟨line, record⟩ := entry
  cases record <;>
    simp only [LineRecord.halves, LineRecord.halves?, List.mem_cons, List.not_mem_nil,
      or_false] at h <;>
    rcases h with rfl | rfl <;>
      simp [pieces, Piece.keyword, Piece.numbered, Piece.following, Piece.mark, Piece.marks]

/-- The names that a text declares are not empty. -/
theorem name_ne_empty_of_describes {text : String} {records : List LineRecord} {d : Decl}
    (h : Describes text records) (hd : d ∈ declsOf records) : d.name ≠ "" := by
  obtain ⟨entry, hentry, hd⟩ := List.mem_flatMap.1 hd
  obtain ⟨-, raw, -, -, -, hspells⟩ := Listing.exists_line h entry hentry
  exact Piece.ne_empty_of_spells hspells (Record.word_mem_pieces hd)

namespace Stages

variable {text : String} {o : Options} {t : Track} {records : List LineRecord} {r : Registry}
  {i : Nat} {n : Node} {s : String}

/-- Only dummies have no name. -/
theorem name_eq_empty_iff (h : Stages text o t records r) (hn : t.graph.node? i = some n) :
    n.name = "" ↔ n.kind.tag = .dummy := by
  obtain ⟨d?, hd, hr⟩ := h.draws.wires.resolved i n hn
  rw [h.draws.wires.tag_eq_dummy_iff h.draws.valid hn, hd]
  cases d? with
  | none => exact iff_of_true hr.2.1 rfl
  | some d =>
    have hmem : d ∈ declsOf records := h.draws.holds.decls_eq ▸ Registry.mem_decls_of_placed hd
    refine iff_of_false (fun hname => ?_) (by simp)
    exact name_ne_empty_of_describes (readRecords_eq_ok_iff.1 h.read) hmem (hr.2.1.symm.trans hname)

/-- A name finds the one node that has it, and the empty name finds none. -/
theorem nodeId?_eq_some_iff (h : Stages text o t records r) :
    t.graph.nodeId? s = some i ↔ ∃ n, t.graph.node? i = some n ∧ n.name ≠ "" ∧ n.name = s := by
  rw [h.wellFormed.nodeId?_eq_some_iff]
  refine exists_congr fun n => and_congr_right fun hn => and_congr_left fun _ => ?_
  rw [ne_eq, ne_eq, h.name_eq_empty_iff hn]

/-- A row that is found by its name is the row of the node of that name. -/
theorem nodeId?_of_nodeByName? {name : String} {x : TableNode} (h : Stages text o t records r)
    (hx : (Table.ofTrack name t).nodeByName? s = some x) :
    t.graph.nodeId? s = some x.index ∧ (Table.ofTrack name t).nodes[x.index]? = some x := by
  have hname := List.find?_some hx
  obtain ⟨i, hi⟩ := List.getElem?_of_mem (List.mem_of_find?_eq_some hx)
  have hrow := hi
  rw [Table.getElem?_ofTrack, Option.map_eq_some_iff] at hi
  obtain ⟨n, hn, rfl⟩ := hi
  obtain rfl : n.id = i := h.wellFormed.node_id hn
  refine ⟨h.nodeId?_eq_some_iff.2 ⟨n, hn, ?_⟩, hrow⟩
  simpa [Table.nodeOf] using hname

/-- A row is found by its name just where the node is. -/
theorem index_of_nodeByName? (h : Stages text o t records r) (name s : String) :
    ((Table.ofTrack name t).nodeByName? s).map TableNode.index = t.graph.nodeId? s := by
  cases hx : (Table.ofTrack name t).nodeByName? s with
  | some x => rw [Option.map_some, (h.nodeId?_of_nodeByName? hx).1]
  | none =>
    rw [Option.map_none, eq_comm, Option.eq_none_iff_forall_ne_some]
    intro i hi
    obtain ⟨n, hn, hne, rfl⟩ := h.nodeId?_eq_some_iff.1 hi
    have hmem : Table.nodeOf t n ∈ (Table.ofTrack name t).nodes :=
      List.mem_of_getElem? (Table.getElem?_ofTrack i |>.trans (by rw [hn, Option.map_some]))
    have hnot := List.find?_eq_none.1 hx _ hmem
    exact hnot (by simpa [Table.nodeOf] using hne)

end Stages

/-! ## The whole track -/

/-- **Recovery.** The table of a compiled track tells its name and all that a controller needs of
the track, and finds by its name just the row of the node that has it. -/
theorem recovery_of_compile {text : String} {o : Options} {t : Track}
    (h : (compile text o).result = .ok t) (name : String) :
    (∀ text' o' t' name', (compile text' o').result = .ok t' →
      Table.ofTrack name t = Table.ofTrack name' t' → name = name' ∧ t.Alike t') ∧
      ∀ s, ((Table.ofTrack name t).nodeByName? s).map TableNode.index = t.graph.nodeId? s ∧
        ∀ x, (Table.ofTrack name t).nodeByName? s = some x →
          (Table.ofTrack name t).nodes[x.index]? = some x := by
  obtain ⟨records, r, hs⟩ := exists_stages_of_compile h
  refine ⟨fun text' o' t' name' h' heq => ⟨congrArg Table.name heq, ?_⟩, fun s =>
    ⟨hs.index_of_nodeByName? name s, fun x hx => (hs.nodeId?_of_nodeByName? hx).2⟩⟩
  obtain ⟨records', r', hs'⟩ := exists_stages_of_compile h'
  obtain ⟨firsts, free, hc⟩ := hs.wellFormed.components_of_build hs.nodeCount_le hs.build
  obtain ⟨firsts', free', hc'⟩ := hs'.wellFormed.components_of_build hs'.nodeCount_le hs'.build
  have hnodes := Table.nodes_eq_of_ofTrack_eq hs.wellFormed hs'.wellFormed heq
  exact {
    nodes_eq := hnodes
    edges_eq := Table.edges_eq_of_ofTrack_eq hs.wellFormed hs'.wellFormed heq
    sensorSlots_eq := hs.wellFormed.sensorSlots_eq_of_nodes hs'.wellFormed hnodes
    nodeId?_eq := hs.wellFormed.nodeId?_eq_of_nodes hs'.wellFormed hnodes
    groupOf?_eq := Table.groupOf?_eq_of_ofTrack_eq hs.wellFormed hs'.wellFormed hc hc' heq
    loop_eq := Table.loop_eq_of_ofTrack_eq heq }

/-- The table of the shuttle. -/
def shuttleTable : Table where
  name := "shuttle"
  nodeCount := 2
  sensorCount := 2
  nodes := [⟨0, .sensor, "A", 0, 1, [⟨0, 1, .ahead, 0, 7, 0, 1⟩]⟩,
    ⟨1, .sensor, "B", 1, 0, [⟨0, 0, .ahead, 2, 7, 1, 1⟩]⟩]
  loop := none

/-- The shuttle with a mutex group of one edge. -/
def guardedShuttle : String := shuttle ++ "\nmutex A B"

/-- A group of one edge makes another track, but tells a controller nothing. -/
theorem recovery_shuttle : ∃ t t', (compile shuttle {}).result = .ok t ∧
    (compile guardedShuttle {}).result = .ok t' ∧ t ≠ t' ∧
      Table.ofTrack "shuttle" t = Table.ofTrack "shuttle" t' ∧ t.Alike t' := by
  have h : (compile shuttle {}).result.toOption.map
      (fun t => (Table.ofTrack "shuttle" t, t.mutexes.declaredCount)) =
        some (shuttleTable, 0) := by
    rw [compile_eq_inserting]
    decide +kernel
  have h' : (compile guardedShuttle {}).result.toOption.map
      (fun t => (Table.ofTrack "shuttle" t, t.mutexes.declaredCount)) =
        some (shuttleTable, 1) := by
    rw [compile_eq_inserting]
    decide +kernel
  obtain ⟨t, ht, htable⟩ := exists_of_toOption_map h
  obtain ⟨t', ht', htable'⟩ := exists_of_toOption_map h'
  rw [Prod.mk.injEq] at htable htable'
  have htables := htable.1.trans htable'.1.symm
  refine ⟨t, t', ht, ht', ?_, htables, ?_⟩
  · rintro rfl
    exact absurd (htable.2.symm.trans htable'.2) (by decide)
  · exact ((recovery_of_compile ht "shuttle").1 guardedShuttle {} t' "shuttle" ht' htables).2

end TrackPlan
