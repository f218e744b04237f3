import TrackPlan.Proofs.Document.Fits
import TrackPlan.Proofs.Mutex.Partition
import TrackPlan.Proofs.Route.Shortest
import TrackPlan.Proofs.Table.Consistency
import TrackPlan.Table.Document

/-!
# Tables as data

A table can be told from its datum, and the datum is of the shape of a table if the numbers in it
have room in their fields.

1. Each part is what its datum stands for (`Table.ofDatum?_toDatum`).
2. `Table.InRange` says that the numbers of a table have room, and `Table.InRange.fits` that the
   datum is of the shape then.
3. The numbers in the table of a compiled track are positions, counts, addresses and distances of 32
   bits (`Table.inRange_of_compile`). Only a sensor of the calibration loop can be farther from the
   one before it.
-/

namespace TrackPlan

/-! ## What a datum stands for -/

namespace Datum

variable {α : Type} {f : α → Datum} {g : Datum → Option α}

theorem toList?_ofList (h : ∀ a, g (f a) = some a) (xs : List α) :
    (ofList f xs).toList? g = some xs := by
  refine mapM_eq_some_of_forall₂ ?_
  rw [List.forall₂_map_left_iff, List.forall₂_same]
  exact fun a _ => h a

theorem toOption?_ofOption (h : ∀ a, g (f a) = some a) (a : Option α) :
    (ofOption f a).toOption? g = some a := by
  cases a with
  | none => rfl
  | some a => rw [ofOption, toOption?, h a]; rfl

end Datum

theorem ReverseKind.find?_name (k : ReverseKind) : all.find? (·.name == k.name) = some k := by
  cases k <;> decide

theorem Tag.find?_name (t : Tag) : all.find? (·.name == t.name) = some t := by
  cases t <;> decide

theorem TableEdge.ofDatum?_toDatum (e : TableEdge) : ofDatum? e.toDatum = some e := by
  rw [toDatum, ofDatum?, ReverseKind.find?_name]
  rfl

theorem TableNode.ofDatum?_toDatum (n : TableNode) : ofDatum? n.toDatum = some n := by
  rw [toDatum, ofDatum?, Tag.find?_name, Datum.toList?_ofList TableEdge.ofDatum?_toDatum]
  rfl

theorem LoopSensor.ofDatum?_toDatum (s : LoopSensor) : ofDatum? s.toDatum = some s := rfl

theorem LoopBranch.ofDatum?_toDatum (b : LoopBranch) : ofDatum? b.toDatum = some b := rfl

theorem TableLoop.ofDatum?_toDatum (l : TableLoop) : ofDatum? l.toDatum = some l := by
  rw [toDatum, ofDatum?, Datum.toList?_ofList LoopSensor.ofDatum?_toDatum,
    Datum.toList?_ofList LoopBranch.ofDatum?_toDatum]
  rfl

/-- A table is what its datum stands for. -/
theorem Table.ofDatum?_toDatum (t : Table) : ofDatum? t.toDatum = some t := by
  rw [toDatum, ofDatum?, Datum.toList?_ofList TableNode.ofDatum?_toDatum,
    Datum.toOption?_ofOption TableLoop.ofDatum?_toDatum]
  rfl

/-! ## Numbers that have room -/

/-- The numbers of an edge have room in its fields. -/
structure TableEdge.InRange (e : TableEdge) : Prop where
  slot_lt : e.slot < 2
  dest_lt : e.dest < UInt32.size
  reverseSlot_lt : e.reverseSlot < UInt32.size
  distance_lt : e.distance < UInt32.size
  mutexGroup_lt : e.mutexGroup < UInt32.size
  mutexSize_lt : e.mutexSize < UInt32.size

/-- The numbers of a node have room in its fields. -/
structure TableNode.InRange (n : TableNode) : Prop where
  index_lt : n.index < UInt32.size
  num_lt : n.num < UInt32.size
  reverse_lt : n.reverse < UInt32.size
  edges : ∀ e ∈ n.edges, e.InRange

/-- The numbers of a loop have room in its fields; a distance has 63 bits, as many as every format
has. -/
structure TableLoop.InRange (l : TableLoop) : Prop where
  sensors : ∀ s ∈ l.sensors, s.node < UInt32.size ∧ s.distance < 2 ^ 63
  branches : ∀ b ∈ l.branches, b.node < UInt32.size

/-- The numbers of a table have room in its fields. -/
structure Table.InRange (t : Table) : Prop where
  nodeCount_lt : t.nodeCount < UInt32.size
  sensorCount_lt : t.sensorCount < UInt32.size
  nodes : ∀ n ∈ t.nodes, n.InRange
  loop : ∀ l, t.loop = some l → l.InRange

section Fits

open Shape (byte word long)

theorem fits_word {n : Nat} (h : n < UInt32.size) : Fits (2 ^ 63) word (.number n) :=
  .number h (Nat.lt_trans h (by decide))

theorem fits_ofList {α : Type} {limit : Nat} {s : Shape} {f : α → Datum} {xs : List α}
    (h : ∀ a ∈ xs, Fits limit s (f a)) : Fits limit (.list s) (.ofList f xs) :=
  .list (List.forall_mem_map.2 h)

theorem fits_ofOption {α : Type} {limit : Nat} {s : Shape} {f : α → Datum} {a : Option α}
    (h : ∀ b, a = some b → Fits limit s (f b)) : Fits limit (.option s) (.ofOption f a) := by
  cases a with
  | none => exact .absent s
  | some b => exact .present (h b rfl)

theorem TableEdge.InRange.fits {e : TableEdge} (h : e.InRange) :
    Fits (2 ^ 63) shape e.toDatum := by
  have hslot : Fits (2 ^ 63) byte (.number e.slot) :=
    .number (Nat.lt_trans h.slot_lt (by decide)) (Nat.lt_trans h.slot_lt (by decide))
  have hkind : Fits (2 ^ 63) (.oneOf ReverseKind.name ReverseKind.all)
      (.choice e.reverseKind.name) :=
    .choice (List.mem_map_of_mem e.reverseKind.mem_all)
  exact .of_inStep <| .cons ⟨rfl, hslot⟩ <| .cons ⟨rfl, fits_word h.dest_lt⟩ <|
    .cons ⟨rfl, hkind⟩ <| .cons ⟨rfl, fits_word h.reverseSlot_lt⟩ <|
      .cons ⟨rfl, fits_word h.distance_lt⟩ <| .cons ⟨rfl, fits_word h.mutexGroup_lt⟩ <|
        .cons ⟨rfl, fits_word h.mutexSize_lt⟩ .nil

theorem TableNode.InRange.fits {n : TableNode} (h : n.InRange) : Fits (2 ^ 63) shape n.toDatum := by
  have hkind : Fits (2 ^ 63) (.oneOf Tag.name Tag.all) (.choice n.kind.name) :=
    .choice (List.mem_map_of_mem n.kind.mem_all)
  have hedges : Fits (2 ^ 63) (.list TableEdge.shape) (.ofList TableEdge.toDatum n.edges) :=
    fits_ofList fun e he => (h.edges e he).fits
  exact .of_inStep <| .cons ⟨rfl, fits_word h.index_lt⟩ <| .cons ⟨rfl, hkind⟩ <|
    .cons ⟨rfl, .text n.name⟩ <| .cons ⟨rfl, fits_word h.num_lt⟩ <|
      .cons ⟨rfl, fits_word h.reverse_lt⟩ <| .cons ⟨rfl, hedges⟩ .nil

theorem TableLoop.InRange.fits {l : TableLoop} (h : l.InRange) : Fits (2 ^ 63) shape l.toDatum := by
  have hsensor : ∀ s ∈ l.sensors, Fits (2 ^ 63) LoopSensor.shape s.toDatum := by
    intro s hs
    obtain ⟨hnode, hdistance⟩ := h.sensors s hs
    have hlong : Fits (2 ^ 63) long (.number s.distance) :=
      .number (Nat.lt_trans hdistance (by decide)) hdistance
    exact .of_inStep <| .cons ⟨rfl, fits_word hnode⟩ <| .cons ⟨rfl, hlong⟩ .nil
  have hbranch : ∀ b ∈ l.branches, Fits (2 ^ 63) LoopBranch.shape b.toDatum := fun b hb =>
    .of_inStep <| .cons ⟨rfl, fits_word (h.branches b hb)⟩ <| .cons ⟨rfl, .flag b.curved⟩ .nil
  exact .of_inStep <| .cons ⟨rfl, fits_ofList hsensor⟩ <| .cons ⟨rfl, fits_ofList hbranch⟩ .nil

/-- If its numbers have room, the datum of a table is of the shape of one. -/
theorem Table.InRange.fits {t : Table} (h : t.InRange) : Fits (2 ^ 63) shape t.toDatum := by
  have hnodes : Fits (2 ^ 63) (.list TableNode.shape) (.ofList TableNode.toDatum t.nodes) :=
    fits_ofList fun n hn => (h.nodes n hn).fits
  have hloop : Fits (2 ^ 63) (.option TableLoop.shape) (.ofOption TableLoop.toDatum t.loop) :=
    fits_ofOption fun l hl => (h.loop l hl).fits
  exact .of_inStep <| .cons ⟨rfl, .text t.name⟩ <| .cons ⟨rfl, fits_word h.nodeCount_lt⟩ <|
    .cons ⟨rfl, fits_word h.sensorCount_lt⟩ <| .cons ⟨rfl, hnodes⟩ <| .cons ⟨rfl, hloop⟩ .nil

end Fits

/-! ## The table of a compiled track -/

namespace Table

variable {t : Track} {decls : List MutexDecl} {firsts free : List Nat} {i k : Nat} {e : Edge}
  {n : Node}

theorem inRange_edgeOf (hg : t.graph.WellFormed) (hcount : t.graph.nodeCount ≤ nodeCeiling)
    (hc : t.graph.Components decls t.mutexes firsts free) (he : t.graph.edge? k = some e) :
    (edgeOf t e).InRange := by
  have hceiling : 2 * nodeCeiling < UInt32.size := by decide
  have hedges := hg.edgeCount_le
  have hreverse := reverseSlot_lt hg he
  unfold Graph.edgeSlotCount at hreverse
  obtain ⟨group, hgroup⟩ := hc.exists_groupOf? (hg.edge_id he ▸ Graph.lt_of_edge? he)
  have hnumber : (edgeOf t e).mutexGroup < t.mutexes.groups.size := by
    rw [mutexGroup_edgeOf hgroup]
    exact hc.exists_groupOf?_eq.1 ⟨e.id, hgroup⟩
  have hgroups := hc.size_groups_le hg
  have hsize : (edgeOf t e).mutexSize ≤ t.graph.edgeCount := by
    show t.mutexes.groupSize e.id ≤ _
    rw [hc.groupSize_eq hg hgroup]
    exact List.countP_le_length.trans_eq List.length_range
  have hdest := hg.dest_lt he
  exact {
    slot_lt := hg.slot_lt he
    dest_lt := by
      show e.dest < _
      omega
    reverseSlot_lt := by omega
    distance_lt := e.distance.toNat_lt
    mutexGroup_lt := by omega
    mutexSize_lt := by omega }

theorem inRange_nodeOf (hg : t.graph.WellFormed) (hcount : t.graph.nodeCount ≤ nodeCeiling)
    (hc : t.graph.Components decls t.mutexes firsts free) (hn : t.graph.node? i = some n) :
    (nodeOf t n).InRange where
  index_lt := by
    have hi : i < t.graph.nodeCount := (Array.getElem?_eq_some_iff.1 hn).1
    show n.id < _
    rw [hg.node_id hn]
    exact Nat.lt_of_lt_of_le hi (Nat.le_trans hcount (by decide))
  num_lt := by
    unfold nodeOf
    dsimp only
    cases n.kind.address?.or n.kind.switchNumber? with
    | none => decide
    | some number => exact number.toNat_lt
  reverse_lt := Nat.lt_of_lt_of_le (hg.reverse_lt hn) (Nat.le_trans hcount (by decide))
  edges := by
    intro x hx
    obtain ⟨e, he, rfl⟩ := List.mem_map.1 hx
    exact inRange_edgeOf hg hcount hc (hg.mem_outgoing_iff.1 he).1

/-- The positions on a loop are positions of nodes. -/
theorem node_lt_of_extract {steps : List LoopStep} {l : Loop}
    (h : Calibration.extract t.graph steps = .ok (some l)) :
    (∀ s ∈ l.sensors, s.node < t.graph.nodeCount) ∧
      ∀ b ∈ l.branches, b.node < t.graph.nodeCount := by
  obtain ⟨-, -, -, -, hsensors, hbranches⟩ := Calibration.extract_eq_ok_some_iff.1 h
  have hlt : ∀ {i}, (∃ n, t.graph.node? i = some n) → i < t.graph.nodeCount :=
    fun ⟨_, hn⟩ => (Array.getElem?_eq_some_iff.1 hn).1
  refine ⟨fun s hs => hlt ?_, fun b hb => hlt ?_⟩
  · obtain ⟨n, hn, -⟩ :=
      Graph.isSensor_iff.1 (Calibration.isSensor_of_mem_sensorsAround s (hsensors ▸ hs))
    exact ⟨n, hn⟩
  · obtain ⟨n, hn, -⟩ :=
      Graph.isBranch_iff.1 (Calibration.isBranch_of_mem_branchesOf b (hbranches ▸ hb))
    exact ⟨n, hn⟩

/-- The numbers in the table of a compiled track have room, if its sensors are not too far apart
on the calibration loop. -/
theorem inRange_of_compile {text : String} {o : Options} (h : (compile text o).result = .ok t)
    (hfar : ∀ l, t.loop = some l → ∀ s ∈ l.sensors, s.distance < 2 ^ 63) (name : String) :
    (ofTrack name t).InRange := by
  obtain ⟨records, r, hs⟩ := exists_stages_of_compile h
  have hg := hs.wellFormed
  have hcount := Registry.nodeCount_le_of_link hs.link
  have hroom : nodeCeiling < UInt32.size := by decide
  obtain ⟨firsts, free, hc⟩ := hg.components_of_build hs.nodeCount_le hs.build
  exact {
    nodeCount_lt := Nat.lt_of_le_of_lt hcount hroom
    sensorCount_lt := by
      have hsensors : t.graph.sensorCount ≤ t.graph.nodeCount :=
        hg.sensorCount_eq ▸ Array.countP_le_size
      exact Nat.lt_of_le_of_lt (Nat.le_trans hsensors hcount) hroom
    nodes := by
      intro x hx
      obtain ⟨i, hi⟩ := List.getElem?_of_mem hx
      rw [getElem?_ofTrack, Option.map_eq_some_iff] at hi
      obtain ⟨n, hn, rfl⟩ := hi
      exact inRange_nodeOf hg hcount hc hn
    loop := by
      intro l hl
      obtain ⟨loop, hloop, rfl⟩ := Option.map_eq_some_iff.1 hl
      obtain ⟨hsensors, hbranches⟩ := node_lt_of_extract (hs.extract.trans (congrArg _ hloop))
      exact {
        sensors := fun s hs => ⟨by have := hsensors s hs; omega, hfar loop hloop s hs⟩
        branches := fun b hb => by have := hbranches b hb; omega } }

end Table

end TrackPlan
