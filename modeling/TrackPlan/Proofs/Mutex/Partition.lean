import TrackPlan.Proofs.Mutex.Counting
import TrackPlan.Proofs.Mutex.Sealed

/-!
# A table of groups is a partition

A table tells twice which edges belong together: by the members of each group, and by the group of
each edge. `MutexTable.Partitions` says that both tell the same partition of the edges of a graph.

1. `Components.flatMap_members_perm`: the members of all groups are the edges, each once.
2. `Reachable.partitions_of_build`: a linked graph has fewer edges than 32 bits can number, so this
   makes a partition.
-/

namespace TrackPlan

/-- The members of the groups and the groups of the edges are one partition of the edges. -/
structure MutexTable.Partitions (t : MutexTable) (edgeCount : Nat) : Prop where
  id_eq : ∀ {k group}, t.group? k = some group → group.id = k
  members_ne_nil : ∀ {k group}, t.group? k = some group → group.members ≠ []
  ascending : ∀ {k group}, t.group? k = some group → group.members.Ascending
  member_lt : ∀ {k group e}, t.group? k = some group → e ∈ group.members → e < edgeCount
  groupOf?_iff_mem : ∀ {e k}, t.groupOf? e = some k ↔
    ∃ group, t.group? k = some group ∧ e ∈ group.members
  groupOf?_iff_contains : ∀ {e k}, t.groupOf? e = some k ↔
    ∃ group, t.group? k = some group ∧ group.contains e = true
  existsUnique_group : ∀ {e}, e < edgeCount →
    ∃! k, ∃ group, t.group? k = some group ∧ e ∈ group.members
  /-- No edge is left with what it has before it gets a group, be that the number of edges or the
  last number of 32 bits. -/
  groupOf?_lt : ∀ {e k}, t.groupOf? e = some k → k < edgeCount ∧ k < UInt32.size - 1
  groupSize_eq : ∀ {e k group}, t.groupOf? e = some k → t.group? k = some group →
    t.groupSize e = group.members.length
  sum_length_eq : (t.groups.toList.map (·.members.length)).sum = edgeCount
  /-- Declared groups come first. -/
  declared_of_le : ∀ {j k group group'}, t.group? j = some group → t.group? k = some group' →
    j ≤ k → group'.declared = true → group.declared = true
  length_eq_one : ∀ {k group}, t.group? k = some group → group.declared = false →
    group.members.length = 1
  unknown : ∀ {e}, edgeCount ≤ e → t.groupOf? e = none ∧ t.groupSize e = 0

theorem MutexTable.mem_groups_iff {t : MutexTable} {group : MutexGroup} :
    group ∈ t.groups.toList ↔ ∃ k, t.group? k = some group := by
  rw [List.mem_iff_getElem?]
  exact exists_congr fun k => Array.getElem?_toList ▸ Iff.rfl

namespace Graph

variable {g : Graph} {decls : List MutexDecl} {t : MutexTable} {firsts free : List Nat}
  {group : MutexGroup} {e j k : Nat}

/-- The members of the groups are the edges that have a group. -/
theorem Components.mem_groups_iff (h : g.Components decls t firsts free) (hg : g.WellFormed) :
    (∃ group ∈ t.groups.toList, e ∈ group.members) ↔ e < g.edgeCount := by
  constructor
  · rintro ⟨group, hmem, he⟩
    obtain ⟨k, hk⟩ := MutexTable.mem_groups_iff.1 hmem
    exact h.lt_of_groupOf? hg ((h.groupOf?_eq_some_iff e k).2 ⟨group, hk, he⟩)
  · intro he
    obtain ⟨k, hk⟩ := h.exists_groupOf? he
    obtain ⟨group, hgroup, hmem⟩ := (h.groupOf?_eq_some_iff e k).1 hk
    exact ⟨group, MutexTable.mem_groups_iff.2 ⟨k, hgroup⟩, hmem⟩

/-- Two groups share no edge. -/
theorem Components.pairwise_disjoint (h : g.Components decls t firsts free) :
    t.groups.toList.Pairwise fun a b => a.members.Disjoint b.members := by
  rw [List.pairwise_iff_getElem]
  intro i j hi hj hij e hei hej
  have hget : ∀ k (hk : k < t.groups.toList.length), t.group? k = some t.groups.toList[k] :=
    fun k hk => Array.getElem?_toList.symm.trans (List.getElem?_eq_getElem hk)
  have hgi := (h.groupOf?_eq_some_iff e i).2 ⟨_, hget i hi, hei⟩
  have hgj := (h.groupOf?_eq_some_iff e j).2 ⟨_, hget j hj, hej⟩
  rw [hgi, Option.some.injEq] at hgj
  exact Nat.ne_of_lt hij hgj

/-- The members of all groups are the edges, each once. -/
theorem Components.flatMap_members_perm (h : g.Components decls t firsts free)
    (hg : g.WellFormed) :
    (t.groups.toList.flatMap MutexGroup.members).Perm (List.range g.edgeCount) := by
  have hnodup : (t.groups.toList.flatMap MutexGroup.members).Nodup := by
    rw [List.nodup_flatMap]
    refine ⟨fun group hmem => ?_, h.pairwise_disjoint⟩
    obtain ⟨k, hk⟩ := MutexTable.mem_groups_iff.1 hmem
    exact (h.ascending_members hk).nodup
  rw [List.perm_ext_iff_of_nodup hnodup List.nodup_range]
  intro e
  rw [List.mem_flatMap, List.mem_range, h.mem_groups_iff hg]

theorem Components.sum_length_eq (h : g.Components decls t firsts free) (hg : g.WellFormed) :
    (t.groups.toList.map (·.members.length)).sum = g.edgeCount := by
  have hlength := (h.flatMap_members_perm hg).length_eq
  rwa [List.length_flatMap, List.length_range] at hlength

/-- There are no more groups than edges. -/
theorem Components.size_groups_le (h : g.Components decls t firsts free) (hg : g.WellFormed) :
    t.groups.size ≤ g.edgeCount := by
  have hle := List.length_le_sum_of_one_le (t.groups.toList.map (·.members.length))
  rw [List.length_map, h.sum_length_eq hg, Array.length_toList] at hle
  apply hle
  intro i hi
  obtain ⟨group, hmem, rfl⟩ := List.mem_map.1 hi
  obtain ⟨k, hk⟩ := MutexTable.mem_groups_iff.1 hmem
  obtain ⟨e, he⟩ := h.exists_mem hk
  exact List.length_pos_of_mem he

/-- The table of the components is a partition, if the edges can be numbered with 32 bits. -/
theorem Components.partitions (h : g.Components decls t firsts free) (hg : g.WellFormed)
    (hlt : g.edgeCount < UInt32.size - 1) : t.Partitions g.edgeCount where
  id_eq := h.id_eq
  members_ne_nil := by
    intro k group hk
    obtain ⟨e, he⟩ := h.exists_mem hk
    exact List.ne_nil_of_mem he
  ascending := h.ascending_members
  member_lt := by
    intro k group e hk he
    exact h.lt_of_groupOf? hg ((h.groupOf?_eq_some_iff e k).2 ⟨group, hk, he⟩)
  groupOf?_iff_mem := h.groupOf?_eq_some_iff _ _
  groupOf?_iff_contains := by
    intro e k
    rw [h.groupOf?_eq_some_iff]
    refine exists_congr fun group => and_congr_right fun hk => ?_
    exact (EdgeSet.bisect_iff (h.ascending_members hk)).symm
  existsUnique_group := by
    intro e he
    obtain ⟨k, hk⟩ := h.exists_groupOf? he
    refine ⟨k, (h.groupOf?_eq_some_iff e k).1 hk, fun j hj => ?_⟩
    have hj := (h.groupOf?_eq_some_iff e j).2 hj
    rw [hk, Option.some.injEq] at hj
    exact hj.symm
  groupOf?_lt := by
    intro e k hk
    have hsize := h.exists_groupOf?_eq.1 ⟨e, hk⟩
    have hle := h.size_groups_le hg
    omega
  groupSize_eq := by
    intro e k group he hk
    unfold MutexTable.groupSize
    rw [he, Option.bind_some, hk]
  sum_length_eq := h.sum_length_eq hg
  declared_of_le := by
    intro j k group group' hj hk hjk hd
    rcases h.group_cases hj with ⟨i, members, -, rfl, -⟩ | ⟨e, hhigh, -⟩
    · rfl
    · rcases h.group_cases hk with ⟨i, members, hi, -⟩ | ⟨e, -, -, rfl⟩
      · have hlow := (List.getElem?_eq_some_iff.1 hi).1
        omega
      · cases hd
  length_eq_one := by
    intro k group hk hd
    rcases h.group_cases hk with ⟨i, members, -, rfl, -⟩ | ⟨e, -, -, rfl⟩
    · cases hd
    · rfl
  unknown := by
    intro e he
    have hnone : t.groupOf? e = none := by
      rw [Option.eq_none_iff_forall_ne_some]
      intro k hk
      have := h.lt_of_groupOf? hg hk
      omega
    refine ⟨hnone, ?_⟩
    unfold MutexTable.groupSize
    rw [hnone, Option.bind_none]

end Graph

namespace Registry

variable {r : Registry} {g : Graph} {o : Options} {decls : List MutexDecl} {t : MutexTable}

/-- **Partition.** On a linked graph, every table that is built from mutex records is a partition of
the edges. -/
theorem Reachable.partitions_of_build (hr : r.Reachable) (hl : (r.link o).result = .ok g)
    (ht : (MutexTable.build g decls).result = .ok t) : t.Partitions g.edgeCount := by
  have hg := (wires_of_link hl).wellFormed hr.valid
  have hn := nodeCount_le_of_link hl
  obtain ⟨firsts, free, hc⟩ := hg.components_of_build hn ht
  exact hc.partitions hg (hg.edgeCount_lt hn)

/-- The siding with its mutex records: the second one overlaps the first, and half of the edges are
in no record. -/
theorem partitions_guardedSiding : ∃ r g t, Reachable r ∧ (r.link {}).result = .ok g ∧
    (MutexTable.build g r.mutexes).result = .ok t ∧
      t.groups.toList.map MutexGroup.members = [[0, 1, 3, 4], [2], [5], [6], [7]] ∧
        t.Partitions g.edgeCount := by
  have h : (TrackPlan.compile guardedSiding {}).result.toOption.map
      (fun t => t.mutexes.groups.toList.map MutexGroup.members) =
        some [[0, 1, 3, 4], [2], [5], [6], [7]] := by
    decide +kernel
  obtain ⟨t, ht, hmembers⟩ := exists_of_toOption_map h
  obtain ⟨records, -, r, hr, hc⟩ := TrackPlan.compile_eq_ok.1 ht
  obtain ⟨hlink, -, hbuild, -⟩ := compile_eq_ok.1 hc
  exact ⟨r, t.graph, t.mutexes, reachable_ofRecords hr, hlink, hbuild, hmembers,
    (reachable_ofRecords hr).partitions_of_build hlink hbuild⟩

end Registry

end TrackPlan
