import TrackPlan.Proofs.Mutex.Components

/-!
# Counting the edges of a group

Every number below the number of groups is the group of some edge (`Components.exists_groupOf?_eq`),
and the size of a group is the number of edges that are in it (`Components.groupSize_eq`).
-/

namespace TrackPlan.Graph

variable {g : Graph} {decls : List MutexDecl} {t : MutexTable} {firsts free : List Nat}
  {group : MutexGroup} {e k : Nat}

theorem Components.ascending_members (h : g.Components decls t firsts free)
    (hk : t.group? k = some group) : group.members.Ascending := by
  rcases h.group_cases hk with ⟨i, members, -, rfl, hascending, -⟩ | ⟨e, -, -, rfl⟩
  · exact hascending
  · exact List.pairwise_singleton _ e

/-- A group has the number of its position. -/
theorem Components.id_eq (h : g.Components decls t firsts free) (hk : t.group? k = some group) :
    group.id = k := by
  rcases h.group_cases hk with ⟨i, members, -, rfl, -⟩ | ⟨e, -, -, rfl⟩ <;> rfl

/-- No group is empty. -/
theorem Components.exists_mem (h : g.Components decls t firsts free)
    (hk : t.group? k = some group) : ∃ e, e ∈ group.members := by
  rcases h.group_cases hk with ⟨i, members, hi, rfl, -, hmembers⟩ | ⟨e, -, -, rfl⟩
  · obtain ⟨-, c, hc, e, he⟩ := (h.mem_firsts_iff i).1 (List.mem_of_getElem? hi)
    exact ⟨e, (hmembers e).2 (mem_component_of_mem hc he)⟩
  · exact ⟨e, List.mem_singleton_self e⟩

/-- The groups of the edges are those of the table. -/
theorem Components.exists_groupOf?_eq (h : g.Components decls t firsts free) :
    (∃ e, t.groupOf? e = some k) ↔ k < t.groups.size := by
  constructor
  · rintro ⟨e, he⟩
    obtain ⟨group, hgroup, -⟩ := (h.groupOf?_eq_some_iff e k).1 he
    exact (Array.getElem?_eq_some_iff.1 hgroup).1
  · intro hk
    have hgroup : t.group? k = some t.groups[k] := Array.getElem?_eq_getElem hk
    obtain ⟨e, he⟩ := h.exists_mem hgroup
    exact ⟨e, (h.groupOf?_eq_some_iff e k).2 ⟨_, hgroup, he⟩⟩

/-- The size of a group counts the edges that are in it. -/
theorem Components.groupSize_eq (h : g.Components decls t firsts free) (hg : g.WellFormed)
    (he : t.groupOf? e = some k) :
    t.groupSize e = (List.range g.edgeCount).countP fun f => t.groupOf? f = some k := by
  obtain ⟨group, hgroup, -⟩ := (h.groupOf?_eq_some_iff e k).1 he
  have hmembers : group.members.Perm
      ((List.range g.edgeCount).filter fun f => t.groupOf? f = some k) := by
    rw [List.perm_ext_iff_of_nodup (h.ascending_members hgroup).nodup (List.nodup_range.filter _)]
    intro f
    rw [List.mem_filter, List.mem_range, decide_eq_true_iff, h.groupOf?_eq_some_iff]
    constructor
    · intro hf
      have hgroupOf := (h.groupOf?_eq_some_iff f k).2 ⟨group, hgroup, hf⟩
      exact ⟨h.lt_of_groupOf? hg hgroupOf, group, hgroup, hf⟩
    · rintro ⟨-, group', hgroup', hf⟩
      rw [hgroup, Option.some.injEq] at hgroup'
      exact hgroup' ▸ hf
  unfold MutexTable.groupSize
  rw [he, Option.bind_some, hgroup, List.countP_eq_length_filter]
  exact hmembers.length_eq

end TrackPlan.Graph
