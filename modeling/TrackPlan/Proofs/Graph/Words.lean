import TrackPlan.Proofs.Mutex.Partition
import TrackPlan.Proofs.Table.Consistency

/-!
# Numbers of 32 bits

Nodes, edges, groups and slots are known by their positions, and a position is kept in 32 bits
without a check. The limit on nodes is what makes this safe: it is low enough for two slots a node
(`nodeCeiling`), every edge takes a slot, and every group an edge. `Graph.Narrow` says that no
number of a linked graph is cut off, whatever limit was asked for.
-/

namespace TrackPlan

/-- A number that 32 bits keep. -/
def FitsWord (n : Nat) : Prop := (UInt32.ofNat n).toNat = n

theorem fitsWord_of_lt {n : Nat} (h : n < UInt32.size) : FitsWord n := UInt32.toNat_ofNat_of_lt h

/-- The last number of 32 bits, which marks an edge that has no group yet. -/
def lastWord : Nat := 4294967295

/-- What is numbered in a graph is numbered with 32 bits. -/
structure Graph.Narrow (g : Graph) : Prop where
  nodeCount_le : g.nodeCount ≤ 2147483647
  edgeCount_le : g.edgeCount ≤ 2 * g.nodeCount
  two_mul_nodeCount_lt : 2 * g.nodeCount < 2 ^ 32 - 1
  edgeSlotCount_lt : g.edgeSlotCount < 2 ^ 32
  place_fits : ∀ p ∈ g.places, p.2 < g.nodeCount ∧ FitsWord p.2
  node_fits : ∀ {i n}, g.node? i = some n → n.id = i ∧ FitsWord i
  edge_fits : ∀ {k e}, g.edge? k = some e → e.id = k ∧ FitsWord k
  group_fits : ∀ {decls t k group}, (MutexTable.build g decls).result = .ok t →
    t.group? k = some group → group.id = k ∧ FitsWord k ∧ k ≠ lastWord
  groupOf_fits : ∀ {decls t e k}, (MutexTable.build g decls).result = .ok t →
    t.groupOf? e = some k → FitsWord k ∧ k ≠ lastWord
  /-- The slots of a node follow each other, so the slot is the last bit of the position. -/
  slotIndex_eq : ∀ {k e}, g.edge? k = some e → e.slotIndex = e.src <<< 1 ||| e.slot
  slotIndex_lt : ∀ {k e}, g.edge? k = some e → e.slotIndex < g.edgeSlotCount
  slotIndex_inj : ∀ {j k e f}, g.edge? j = some e → g.edge? k = some f →
    e.slotIndex = f.slotIndex → j = k
  reverseSlot_fits : ∀ {t : Track} {name x}, t.graph = g → x ∈ (Table.ofTrack name t).edges →
    x.reverseSlot < g.edgeSlotCount ∧ FitsWord x.reverseSlot

namespace Graph

variable {g : Graph} {decls : List MutexDecl} {t : MutexTable} {k : Nat} {e : Edge}
  {group : MutexGroup}

theorem WellFormed.slotIndex_eq (hg : g.WellFormed) (he : g.edge? k = some e) :
    e.slotIndex = e.src <<< 1 ||| e.slot := by
  have hslot : e.slot < 2 ^ 1 := hg.slot_lt he
  rw [← Nat.shiftLeft_add_eq_or_of_lt hslot, Nat.shiftLeft_eq, Nat.mul_comm]
  rfl

/-- There are fewer groups than slots. -/
theorem WellFormed.group_lt (hg : g.WellFormed) (hn : g.nodeCount ≤ nodeCeiling)
    (ht : (MutexTable.build g decls).result = .ok t) (hk : t.group? k = some group) :
    group.id = k ∧ k < g.edgeSlotCount := by
  obtain ⟨firsts, free, hc⟩ := hg.components_of_build hn ht
  have hlt : k < t.groups.size := (Array.getElem?_eq_some_iff.1 hk).1
  have hgroups := hc.size_groups_le hg
  exact ⟨hc.id_eq hk, Nat.lt_of_lt_of_le hlt (Nat.le_trans hgroups hg.edgeCount_le)⟩

theorem WellFormed.exists_group_of_groupOf? (hg : g.WellFormed) (hn : g.nodeCount ≤ nodeCeiling)
    (ht : (MutexTable.build g decls).result = .ok t) {e : Nat} (he : t.groupOf? e = some k) :
    ∃ group, t.group? k = some group := by
  obtain ⟨firsts, free, hc⟩ := hg.components_of_build hn ht
  obtain ⟨group, hgroup, -⟩ := (hc.groupOf?_eq_some_iff e k).1 he
  exact ⟨group, hgroup⟩

/-- The limit on nodes is all that has to be known of a graph. -/
theorem WellFormed.narrow (hg : g.WellFormed) (hplaces : ∀ p ∈ g.places, p.2 < g.nodeCount)
    (hcount : g.nodeCount ≤ nodeCeiling) : g.Narrow := by
  have hslots : g.edgeSlotCount < lastWord := by
    have hnodes := hcount
    unfold nodeCeiling at hnodes
    unfold edgeSlotCount lastWord
    omega
  have hfits : ∀ n < g.edgeSlotCount, FitsWord n := fun n hn =>
    fitsWord_of_lt (Nat.lt_trans (Nat.lt_trans hn hslots) (by decide))
  have hnode : ∀ i < g.nodeCount, FitsWord i := by
    intro i hi
    refine hfits i ?_
    unfold edgeSlotCount
    omega
  have hgroup : ∀ {decls t k group}, (MutexTable.build g decls).result = .ok t →
      t.group? k = some group → group.id = k ∧ FitsWord k ∧ k ≠ lastWord := by
    intro decls t k group ht hk
    obtain ⟨hid, hlt⟩ := hg.group_lt hcount ht hk
    exact ⟨hid, hfits k hlt, Nat.ne_of_lt (Nat.lt_trans hlt hslots)⟩
  exact {
    nodeCount_le := hcount
    edgeCount_le := hg.edgeCount_le
    two_mul_nodeCount_lt := hslots
    edgeSlotCount_lt := Nat.lt_trans hslots (by decide)
    place_fits := fun p hp => ⟨hplaces p hp, hnode _ (hplaces p hp)⟩
    node_fits := fun hn => ⟨hg.node_id hn, hnode _ (Array.getElem?_eq_some_iff.1 hn).1⟩
    edge_fits := fun he =>
      ⟨hg.edge_id he, hfits _ (Nat.lt_of_lt_of_le (lt_of_edge? he) hg.edgeCount_le)⟩
    group_fits := hgroup
    groupOf_fits := fun ht he => by
      obtain ⟨group, hk⟩ := hg.exists_group_of_groupOf? hcount ht he
      exact (hgroup ht hk).2
    slotIndex_eq := hg.slotIndex_eq
    slotIndex_lt := hg.slotIndex_lt
    slotIndex_inj := hg.slotIndex_inj
    reverseSlot_fits := by
      rintro t name x rfl hx
      obtain ⟨k, e, he, rfl⟩ := (Table.mem_edges_ofTrack_iff hg).1 hx
      have hlt := Table.reverseSlot_lt hg he
      exact ⟨hlt, hfits _ hlt⟩ }

end Graph

namespace Registry

variable {r : Registry} {g : Graph} {o : Options}

theorem Wires.place_lt (hw : r.Wires g) : ∀ p ∈ g.places, p.2 < g.nodeCount := by
  rintro ⟨name, i⟩ hp
  rw [hw.places_eq] at hp
  obtain ⟨d, hd, -⟩ := mem_places.1 hp
  rw [hw.nodeCount_eq, ← length_placed]
  exact (List.getElem?_eq_some_iff.1 hd).1

/-- **32 bits.** What is numbered in a linked graph is numbered with 32 bits, also if the options
ask for more nodes than that. -/
theorem Reachable.narrow_of_link (hr : r.Reachable) (hl : (r.link o).result = .ok g) :
    g.Narrow := by
  have hw := wires_of_link hl
  exact (hw.wellFormed hr.valid).narrow hw.place_lt (nodeCount_le_of_link hl)

/-- The limit that is asked for is 64 bits long. -/
theorem narrow_leftovers :
    (leftovers.link { maxNodes := some 18446744073709551615 }).result = .ok leftoversGraph ∧
      leftoversGraph.Narrow := by
  have hl : (leftovers.link { maxNodes := some 18446744073709551615 }).result =
      .ok leftoversGraph := by
    decide +kernel
  exact ⟨hl, reachable_leftovers.narrow_of_link hl⟩

end Registry

end TrackPlan
