import TrackPlan.Proofs.Graph.Outgoing
import TrackPlan.Proofs.Mutex.Closure
import TrackPlan.Proofs.Mutex.Grouping
import TrackPlan.Proofs.Mutex.Slots

/-!
# Mutex groups are components

Each mutex record ties the edges together that it names and those that the two rules add. The groups
of a table are the components of the records under overlap, in the order of the first record of
each, and then every other edge alone.

1. `mutexSets_eq_ok` reads the build as a seed for each record, closed and merged.
2. `WellFormed.mem_close_iff` and `Merged.foldl` say what the merged sets hold,
   `MutexTable.lists_ofSets` what the table makes of them.
3. `components_of_build` puts them together.
-/

namespace TrackPlan.Graph

variable {g : Graph} {d : MutexDecl} {decls : List MutexDecl} {e f k : Nat} {s : EdgeSet}
  {sets : List EdgeSet} {src dest : String}

/-! ## What a record ties together -/

/-- The edge between two named nodes. -/
def NamesEdge (g : Graph) (src dest : String) (k : Nat) : Prop :=
  ∃ a b, g.nodeId? src = some a ∧ g.nodeId? dest = some b ∧ g.edgeBetween? a b = some k

theorem edgeFromNames_eq_ok {line : Nat} :
    g.edgeFromNames src dest line = .ok k ↔ g.NamesEdge src dest k := by
  have hfound : (do g.edgeBetween? (← g.nodeId? src) (← g.nodeId? dest) : Option Nat) = some k ↔
      g.NamesEdge src dest k := by
    unfold NamesEdge
    simp only [Option.bind_eq_bind, Option.bind_eq_some_iff]
    constructor
    · intro hs
      obtain ⟨a, ha, b, hb, hk⟩ := hs
      exact ⟨a, b, ha, hb, hk⟩
    · intro hs
      obtain ⟨a, b, ha, hb, hk⟩ := hs
      exact ⟨a, ha, b, hb, hk⟩
  rw [← hfound]
  unfold edgeFromNames
  dsimp only
  split
  · next edge h => rw [h, Except.ok.injEq, Option.some.injEq]
  · next h => rw [h]; simp

/-- The edges that a mutex record ties together: the least closed set around the edges it names. -/
def tied (g : Graph) (d : MutexDecl) : Set Nat :=
  {e | g.Closure (fun k => ∃ p ∈ d.edges, g.NamesEdge p.1 p.2 k) e}

/-- What the records tie together, one set for each. -/
def allTied (g : Graph) (decls : List MutexDecl) : List (Set Nat) := decls.map g.tied

theorem exists_mutexSeed_iff : (∃ s, g.mutexSeed d = .ok s) ↔
    ∀ p ∈ d.edges, ∃ k, g.NamesEdge p.1 p.2 k := by
  unfold mutexSeed
  rw [exists_map_eq_ok_iff, exists_mapM_eq_ok_iff]
  simp only [edgeFromNames_eq_ok]

theorem mem_mutexSeed (h : g.mutexSeed d = .ok s) :
    e ∈ s ↔ ∃ p ∈ d.edges, g.NamesEdge p.1 p.2 e := by
  obtain ⟨edges, hedges, rfl⟩ := map_eq_ok_iff.1 h
  rw [EdgeSet.mem_ofList, mem_of_mapM_eq_ok hedges]
  simp only [edgeFromNames_eq_ok]

theorem ascending_mutexSeed (h : g.mutexSeed d = .ok s) : s.Ascending := by
  obtain ⟨edges, -, rfl⟩ := map_eq_ok_iff.1 h
  exact EdgeSet.pairwise_ofList edges

/-- Closing what a record names gives what it ties together. -/
theorem WellFormed.mem_close_mutexSeed (hg : g.WellFormed) (h : g.mutexSeed d = .ok s) :
    e ∈ g.close s ↔ e ∈ g.tied d := by
  rw [hg.mem_close_iff (ascending_mutexSeed h), tied, Set.mem_ofPred_eq]
  simp only [mem_mutexSeed h]

theorem WellFormed.lt_of_mem_tied (hg : g.WellFormed) (h : e ∈ g.tied d) : e < g.edgeCount := by
  cases h with
  | seed h =>
    obtain ⟨p, -, a, b, -, -, hk⟩ := h
    exact hg.lt_of_edgeBetween? hk
  | reverse _ hr => exact hg.lt_of_reverseEdge? hr
  | sibling _ hs =>
    obtain ⟨x, y, -, hy, -⟩ := hs
    exact lt_of_edge? hy

/-! ## All records -/

/-- The build, record by record: a seed for each, closed and merged. -/
theorem mutexSets_eq_ok {earlier : List EdgeSet} : (g.mutexSets earlier decls).result = .ok sets ↔
    ∃ seeds, List.Forall₂ (fun d s => g.mutexSeed d = .ok s) decls seeds ∧
      (seeds.map g.close).foldl mergeSet earlier = sets := by
  induction decls generalizing earlier with
  | nil =>
    unfold mutexSets
    simp only [Report.result_pure, Except.ok.injEq, List.forall₂_nil_left_iff]
    simp
  | cons d rest ih =>
    unfold mutexSets
    simp only [Report.result_bind_eq_ok_iff, Report.result_ofExcept, ih,
      List.forall₂_cons_left_iff]
    constructor
    · intro h
      obtain ⟨s, hs, -, -, seeds, hseeds, hsets⟩ := h
      exact ⟨s :: seeds, ⟨s, seeds, hs, hseeds, rfl⟩, hsets⟩
    · intro h
      obtain ⟨_, ⟨s, seeds, hs, hseeds, rfl⟩, hsets⟩ := h
      exact ⟨s, hs, (), rfl, seeds, hseeds, hsets⟩

/-- A table is built if every pair of every record names an edge. -/
theorem exists_build_iff : (∃ t, (MutexTable.build g decls).result = .ok t) ↔
    ∀ d ∈ decls, ∀ p ∈ d.edges, ∃ k, g.NamesEdge p.1 p.2 k := by
  rw [MutexTable.build_eq]
  simp only [Report.result_map_eq_ok_iff, mutexSets_eq_ok, ← exists_mutexSeed_iff,
    ← exists_mapM_eq_ok_iff, mapM_eq_ok_iff]
  constructor
  · intro h
    obtain ⟨t, sets, ⟨seeds, hseeds, -⟩, -⟩ := h
    exact ⟨seeds, hseeds⟩
  · intro h
    obtain ⟨seeds, hseeds⟩ := h
    exact ⟨_, _, ⟨seeds, hseeds, rfl⟩, rfl⟩

/-- The merged sets hold the components. -/
theorem WellFormed.merged_of_mutexSets (hg : g.WellFormed)
    (h : (g.mutexSets [] decls).result = .ok sets) :
    ∃ parts, parts.map Prod.snd = sets ∧ Merged (g.allTied decls) parts := by
  obtain ⟨seeds, hseeds, rfl⟩ := mutexSets_eq_ok.1 h
  have hclosed : List.Forall₂ (fun (s : EdgeSet) (c : Set Nat) => ∀ e, e ∈ s ↔ e ∈ c)
      (seeds.map g.close) (g.allTied decls) := by
    unfold allTied
    rw [List.forall₂_map_left_iff, List.forall₂_map_right_iff]
    exact hseeds.flip.imp fun s d hs e => hg.mem_close_mutexSeed hs
  exact Merged.nil.foldl hclosed

/-- The merged sets are ascending. -/
theorem ascending_of_mutexSets (h : (g.mutexSets [] decls).result = .ok sets) :
    ∀ s ∈ sets, s.Ascending := by
  obtain ⟨seeds, hseeds, rfl⟩ := mutexSets_eq_ok.1 h
  refine forall_mem_foldl_mergeSet EdgeSet.ascending_union (fun s hs => ?_)
    fun _ ht => absurd ht List.not_mem_nil
  obtain ⟨seed, hseed, rfl⟩ := List.mem_map.1 hs
  obtain ⟨d, -, hd⟩ := (mem_of_mapM_eq_ok (mapM_eq_ok_iff.2 hseeds)).1 hseed
  exact ascending_closeWithin (ascending_mutexSeed hd)

/-! ## The table -/

/-- The groups of a table are the components of its records, numbered in the order of the first
record of each, and after them the edges that no record reaches, each alone and in their order. -/
structure Components (g : Graph) (decls : List MutexDecl) (t : MutexTable)
    (firsts free : List Nat) : Prop where
  firsts_ascending : firsts.Pairwise (· < ·)
  mem_firsts_iff : ∀ i, i ∈ firsts ↔
    IsFirst (g.allTied decls) i ∧ ∃ c, (g.allTied decls)[i]? = some c ∧ c.Nonempty
  free_ascending : free.Pairwise (· < ·)
  mem_free_iff : ∀ e, e ∈ free ↔ e < g.edgeCount ∧ ∀ d ∈ decls, e ∉ g.tied d
  groups_size : t.groups.size = firsts.length + free.length
  declared_group : ∀ k i, firsts[k]? = some i → ∃ members, t.group? k = some ⟨k, members, true⟩ ∧
    members.Ascending ∧ ∀ e, e ∈ members ↔ e ∈ component (g.allTied decls) i
  free_group : ∀ k e, free[k]? = some e →
    t.group? (firsts.length + k) = some ⟨firsts.length + k, [e], false⟩
  /-- Every edge knows the one group that holds it. -/
  groupOf?_eq_some_iff : ∀ e k, t.groupOf? e = some k ↔
    ∃ group, t.group? k = some group ∧ e ∈ group.members

variable {t t' : MutexTable} {firsts free : List Nat} {parts : List (Nat × EdgeSet)}

theorem exists_tied_of_mem_component {i : Nat} (h : e ∈ component (g.allTied decls) i) :
    ∃ d ∈ decls, e ∈ g.tied d := by
  obtain ⟨j, c, -, hc, he⟩ := h
  obtain ⟨d, hd, rfl⟩ := List.mem_map.1 (List.mem_of_getElem? hc)
  exact ⟨d, hd, he⟩

theorem exists_component_of_mem_tied (hd : d ∈ decls) (he : e ∈ g.tied d) :
    ∃ i < (g.allTied decls).length, e ∈ component (g.allTied decls) i := by
  obtain ⟨i, hi⟩ := List.getElem?_of_mem (List.mem_map_of_mem (f := g.tied) hd)
  exact ⟨i, (List.getElem?_eq_some_iff.1 hi).1, mem_component_of_mem hi he⟩

/-- A merged set is not empty if the first set of its component is not. -/
theorem nonempty_iff_of_merged (h : Merged (g.allTied decls) parts) {p : Nat × EdgeSet}
    (hp : p ∈ parts) : (!p.2.isEmpty) = true ↔
      ∃ c, (g.allTied decls)[p.1]? = some c ∧ c.Nonempty := by
  rw [Bool.not_eq_true', List.isEmpty_eq_false_iff_exists_mem]
  constructor
  · rintro ⟨e, he⟩
    obtain ⟨j, c, hij, hc, hec⟩ := (h.mem_iff p hp e).1 he
    exact hij.nonempty ⟨c, hc, e, hec⟩
  · intro hs
    obtain ⟨c, hc, e, hec⟩ := hs
    exact ⟨e, (h.mem_iff p hp e).2 (mem_component_of_mem hc hec)⟩

/-- An edge is in a merged set if some record ties it to others. -/
theorem exists_mem_merged_iff (h : Merged (g.allTied decls) parts) :
    (∃ s ∈ parts.map Prod.snd, e ∈ s) ↔ ∃ d ∈ decls, e ∈ g.tied d := by
  constructor
  · rintro ⟨s, hs, he⟩
    obtain ⟨p, hp, rfl⟩ := List.mem_map.1 hs
    exact exists_tied_of_mem_component ((h.mem_iff p hp e).1 he)
  · rintro ⟨d, hd, he⟩
    obtain ⟨i, hi, hei⟩ := exists_component_of_mem_tied hd he
    obtain ⟨p, hp, hpi⟩ := h.exists_connected hi
    exact ⟨p.2, List.mem_map_of_mem hp, (h.mem_iff p hp e).2 (hpi.mem_component hei)⟩

theorem WellFormed.lt_of_mem_merged (hg : g.WellFormed) (h : Merged (g.allTied decls) parts) :
    ∀ s ∈ parts.map Prod.snd, ∀ e ∈ s, e < g.edgeCount := by
  intro s hs e he
  obtain ⟨d, -, hd⟩ := (exists_mem_merged_iff h).1 ⟨s, hs, he⟩
  exact hg.lt_of_mem_tied hd

/-- The groups, seen from the merged sets under the positions of their first records. -/
theorem groupsOf_merged {n : Nat} : MutexTable.groupsOf n (parts.map Prod.snd) =
    (parts.filter fun p => !p.2.isEmpty).map (fun p => (p.2, true)) ++
      (MutexTable.freeEdges n (parts.map Prod.snd)).map fun edge => ([edge], false) := by
  unfold MutexTable.groupsOf
  rw [List.filter_map, List.map_map]
  rfl

/-- There are no more sets than edges, so the groups can be told from no group. -/
theorem WellFormed.length_live_le (hg : g.WellFormed) (hn : g.nodeCount ≤ nodeCeiling)
    (h : Merged (g.allTied decls) parts) :
    ((parts.map Prod.snd).filter (!·.isEmpty)).length ≤ MutexTable.ungrouped := by
  have hle := MutexTable.length_le_of_apart (h.apart.filter (!·.isEmpty))
    (fun s hs => by simpa using (List.mem_filter.1 hs).2)
    (fun s hs => hg.lt_of_mem_merged h s (List.mem_of_mem_filter hs))
  exact Nat.le_trans hle (Nat.le_of_lt (hg.edgeCount_lt hn))

/-- The groups of a table that is built are the components. -/
theorem WellFormed.components_of_build (hg : g.WellFormed) (hn : g.nodeCount ≤ nodeCeiling)
    (h : (MutexTable.build g decls).result = .ok t) :
    ∃ firsts free, g.Components decls t firsts free := by
  rw [MutexTable.build_eq] at h
  obtain ⟨sets, hsets, rfl⟩ := Report.result_map_eq_ok_iff.1 h
  obtain ⟨parts, rfl, hm⟩ := hg.merged_of_mutexSets hsets
  have hlists := MutexTable.lists_ofSets (n := g.edgeCount) hm.apart (hg.length_live_le hn hm)
  have hgroups : MutexTable.groupsOf g.edgeCount (parts.map Prod.snd) = _ := groupsOf_merged
  refine ⟨(parts.filter fun p => !p.2.isEmpty).map Prod.fst,
    MutexTable.freeEdges g.edgeCount (parts.map Prod.snd), ?_⟩
  exact {
    firsts_ascending := List.pairwise_map.2 (hm.ascending.filter _)
    mem_firsts_iff := by
      intro i
      rw [List.mem_map, hm.isFirst_iff]
      constructor
      · rintro ⟨p, hp, rfl⟩
        obtain ⟨hp, hne⟩ := List.mem_filter.1 hp
        exact ⟨⟨p, hp, rfl⟩, (nonempty_iff_of_merged hm hp).1 hne⟩
      · intro hx
        obtain ⟨⟨p, hp, rfl⟩, hne⟩ := hx
        exact ⟨p, List.mem_filter.2 ⟨hp, (nonempty_iff_of_merged hm hp).2 hne⟩, rfl⟩
    free_ascending := MutexTable.freeEdges_ascending _ _
    mem_free_iff := by
      intro e
      have hiff := not_congr (exists_mem_merged_iff (e := e) hm)
      push Not at hiff
      rw [MutexTable.mem_freeEdges, hiff]
    groups_size := by
      rw [hlists.groups_size, hgroups, List.length_append, List.length_map, List.length_map,
        List.length_map]
    declared_group := by
      intro k i hi
      rw [List.getElem?_map, Option.map_eq_some_iff] at hi
      obtain ⟨p, hp, rfl⟩ := hi
      have hmem := List.mem_of_mem_filter (List.mem_of_getElem? hp)
      refine ⟨p.2, hlists.group?_eq k (p.2, true) ?_, ?_, hm.mem_iff p hmem⟩
      · have hk : ((parts.filter fun p => !p.2.isEmpty).map fun p => (p.2, true))[k]? =
            some (p.2, true) := by rw [List.getElem?_map, hp]; rfl
        rw [hgroups, List.getElem?_append_left (List.getElem?_eq_some_iff.1 hk).1, hk]
      · exact ascending_of_mutexSets hsets _ (List.mem_map_of_mem hmem)
    free_group := by
      intro k e he
      refine hlists.group?_eq _ ([e], false) ?_
      rw [hgroups, List.length_map, ← List.length_map (f := fun p : Nat × EdgeSet => (p.2, true)),
        List.getElem?_append_right (Nat.le_add_right _ _), Nat.add_sub_cancel_left,
        List.getElem?_map, he]
      rfl
    groupOf?_eq_some_iff := by
      intro e k
      rw [hlists.groupOf?_eq_some_iff (MutexTable.lt_of_mem_groupsOf (hg.lt_of_mem_merged hm))
        fun _ => MutexTable.exists_mem_groupsOf]
      constructor
      · rintro ⟨m, hm, he⟩
        exact ⟨_, hlists.group?_eq k m hm, he⟩
      · intro hx
        obtain ⟨group, hgroup, he⟩ := hx
        obtain ⟨m, hm⟩ := hlists.exists_listed hgroup
        rw [hlists.group?_eq k m hm, Option.some.injEq] at hgroup
        subst hgroup
        exact ⟨m, hm, he⟩ }

/-! ## Edges that share a group -/

/-- A group is the component of a record, or an edge alone. -/
theorem Components.group_cases (h : g.Components decls t firsts free) {group : MutexGroup}
    (hk : t.group? k = some group) :
    (∃ i members, firsts[k]? = some i ∧ group = ⟨k, members, true⟩ ∧ members.Ascending ∧
      ∀ e, e ∈ members ↔ e ∈ component (g.allTied decls) i) ∨
      ∃ e, firsts.length ≤ k ∧ free[k - firsts.length]? = some e ∧ group = ⟨k, [e], false⟩ := by
  have hlt := (Array.getElem?_eq_some_iff.1 hk).1
  rw [h.groups_size] at hlt
  rcases Nat.lt_or_ge k firsts.length with hlow | hhigh
  · have hget := List.getElem?_eq_getElem hlow
    obtain ⟨members, hgroup, hascending, hmembers⟩ := h.declared_group k _ hget
    rw [hk, Option.some.injEq] at hgroup
    exact Or.inl ⟨_, members, hget, hgroup, hascending, hmembers⟩
  · have hfree : k - firsts.length < free.length := by omega
    have hget := List.getElem?_eq_getElem hfree
    have hgroup := h.free_group _ _ hget
    rw [Nat.add_sub_cancel' hhigh, hk, Option.some.injEq] at hgroup
    exact Or.inr ⟨_, hhigh, hget, hgroup⟩

/-- Every component that is not empty has its group. -/
theorem Components.exists_group (h : g.Components decls t firsts free) {i : Nat}
    (he : e ∈ component (g.allTied decls) i) : ∃ group k, t.group? k = some group ∧
      ∀ f, f ∈ group.members ↔ f ∈ component (g.allTied decls) i := by
  obtain ⟨j, c, hij, hc, hec⟩ := he
  obtain ⟨m, hm, hmj⟩ := exists_isFirst (List.getElem?_eq_some_iff.1 hc).1
  have hmem := (h.mem_firsts_iff m).2 ⟨hm, hmj.nonempty ⟨c, hc, e, hec⟩⟩
  obtain ⟨k, hk⟩ := List.getElem?_of_mem hmem
  obtain ⟨members, hgroup, -, hmembers⟩ := h.declared_group k m hk
  refine ⟨_, k, hgroup, fun f => (hmembers f).trans ⟨?_, ?_⟩⟩
  · exact (hij.trans hmj.symm).mem_component
  · exact (hmj.trans hij.symm).mem_component

theorem Components.lt_of_groupOf? (h : g.Components decls t firsts free) (hg : g.WellFormed)
    (he : t.groupOf? e = some k) : e < g.edgeCount := by
  obtain ⟨group, hk, hmem⟩ := (h.groupOf?_eq_some_iff e k).1 he
  rcases h.group_cases hk with ⟨i, members, -, rfl, -, hmembers⟩ | ⟨f, -, hf, rfl⟩
  · obtain ⟨d, -, hd⟩ := exists_tied_of_mem_component ((hmembers e).1 hmem)
    exact hg.lt_of_mem_tied hd
  · rw [List.mem_singleton] at hmem
    exact ((h.mem_free_iff e).1 (hmem ▸ List.mem_of_getElem? hf)).1

theorem Components.exists_groupOf? (h : g.Components decls t firsts free)
    (he : e < g.edgeCount) : ∃ k, t.groupOf? e = some k := by
  by_cases hd : ∃ d ∈ decls, e ∈ g.tied d
  · obtain ⟨d, hd, hed⟩ := hd
    obtain ⟨i, -, hi⟩ := exists_component_of_mem_tied hd hed
    obtain ⟨group, k, hk, hmembers⟩ := h.exists_group hi
    exact ⟨k, (h.groupOf?_eq_some_iff e k).2 ⟨group, hk, (hmembers e).2 hi⟩⟩
  · have hfree := (h.mem_free_iff e).2 ⟨he, fun d hmem hed => hd ⟨d, hmem, hed⟩⟩
    obtain ⟨k, hk⟩ := List.getElem?_of_mem hfree
    exact ⟨_, (h.groupOf?_eq_some_iff e _).2 ⟨_, h.free_group k e hk, by simp⟩⟩

/-- Two edges share a group if they are in one component. -/
theorem Components.groupOf?_eq_iff (h : g.Components decls t firsts free)
    (he : e < g.edgeCount) : t.groupOf? e = t.groupOf? f ↔
      e = f ∨ ∃ i, e ∈ component (g.allTied decls) i ∧ f ∈ component (g.allTied decls) i := by
  constructor
  · intro hef
    obtain ⟨k, hk⟩ := h.exists_groupOf? he
    obtain ⟨group, hgroup, hmem⟩ := (h.groupOf?_eq_some_iff e k).1 hk
    obtain ⟨group', hgroup', hmem'⟩ := (h.groupOf?_eq_some_iff f k).1 (hef ▸ hk)
    rw [hgroup, Option.some.injEq] at hgroup'
    subst hgroup'
    rcases h.group_cases hgroup with ⟨i, members, -, rfl, -, hiff⟩ | ⟨x, -, -, rfl⟩
    · exact Or.inr ⟨i, (hiff e).1 hmem, (hiff f).1 hmem'⟩
    · rw [List.mem_singleton] at hmem hmem'
      exact Or.inl (hmem.trans hmem'.symm)
  · rintro (rfl | ⟨i, hi, hi'⟩)
    · rfl
    · obtain ⟨group, k, hk, hmembers⟩ := h.exists_group hi
      rw [(h.groupOf?_eq_some_iff e k).2 ⟨group, hk, (hmembers e).2 hi⟩,
        (h.groupOf?_eq_some_iff f k).2 ⟨group, hk, (hmembers f).2 hi'⟩]

/-- The order of the records is of no account for which edges share a group. -/
theorem Components.groupOf?_eq_iff_of_perm (hg : g.WellFormed) {decls' : List MutexDecl}
    {firsts' free' : List Nat} (h : g.Components decls t firsts free)
    (h' : g.Components decls' t' firsts' free') (hp : decls'.Perm decls) :
    t'.groupOf? e = t'.groupOf? f ↔ t.groupOf? e = t.groupOf? f := by
  have htogether : Together (g.allTied decls') = Together (g.allTied decls) := by
    funext e f
    simp only [Together, allTied, List.mem_map, hp.mem_iff]
  by_cases he : e < g.edgeCount
  · rw [h.groupOf?_eq_iff he, h'.groupOf?_eq_iff he, exists_component_iff, exists_component_iff,
      htogether]
  · -- neither table knows the edge, so both ask whether the other edge is known
    have hnone : ∀ {decls t firsts free} {x : Nat}, g.Components decls t firsts free →
        (t.groupOf? x = none ↔ ¬ x < g.edgeCount) := by
      intro decls t firsts free x hc
      rw [← not_iff_not, not_not, ← ne_eq, Option.ne_none_iff_exists']
      exact ⟨fun ⟨k, hk⟩ => hc.lt_of_groupOf? hg hk, hc.exists_groupOf?⟩
    rw [(hnone h).2 he, (hnone h').2 he, eq_comm, hnone h', eq_comm, hnone h]

end TrackPlan.Graph

namespace TrackPlan.Registry

variable {r : Registry} {g : Graph} {o : Options}

/-- **Mutex groups.** On a linked graph, records whose pairs all name edges make a table, and its
groups are the components of the records. Another order of the records never changes which edges
share a group. -/
theorem Reachable.components_of_link (hr : r.Reachable) (hl : (r.link o).result = .ok g)
    (decls : List MutexDecl)
    (hd : ∀ d ∈ decls, ∀ p ∈ d.edges, ∃ k, g.NamesEdge p.1 p.2 k) :
    ∃ t firsts free, (MutexTable.build g decls).result = .ok t ∧
      g.Components decls t firsts free ∧
        ∀ decls' : List MutexDecl, decls'.Perm decls →
          ∃ t', (MutexTable.build g decls').result = .ok t' ∧
            ∀ e f, t'.groupOf? e = t'.groupOf? f ↔ t.groupOf? e = t.groupOf? f := by
  have hg := (wires_of_link hl).wellFormed hr.valid
  have hn := nodeCount_le_of_link hl
  obtain ⟨t, ht⟩ := Graph.exists_build_iff.2 hd
  obtain ⟨firsts, free, hc⟩ := hg.components_of_build hn ht
  refine ⟨t, firsts, free, ht, hc, fun decls' hp => ?_⟩
  obtain ⟨t', ht'⟩ := Graph.exists_build_iff.2 fun d hmem => hd d (hp.mem_iff.1 hmem)
  obtain ⟨firsts', free', hc'⟩ := hg.components_of_build hn ht'
  exact ⟨t', ht', fun e f => hc.groupOf?_eq_iff_of_perm hg hc' hp⟩

/-- Two records that share no edge, and a third that bridges them. -/
def bridged : List MutexDecl :=
  [⟨[("A", "B")], 1⟩, ⟨[("B", "A")], 2⟩, ⟨[("A", "B"), ("B", "A")], 3⟩]

theorem components_of_bridged : (leftovers.link {}).result = .ok leftoversGraph ∧
    ∃ t firsts free, (MutexTable.build leftoversGraph bridged).result = .ok t ∧
      leftoversGraph.Components bridged t firsts free ∧
        ∀ decls' : List MutexDecl, decls'.Perm bridged →
          ∃ t', (MutexTable.build leftoversGraph decls').result = .ok t' ∧
            ∀ e f, t'.groupOf? e = t'.groupOf? f ↔ t.groupOf? e = t.groupOf? f := by
  have hAB : leftoversGraph.NamesEdge "A" "B" 0 := ⟨0, 2, by decide, by decide, by decide⟩
  have hBA : leftoversGraph.NamesEdge "B" "A" 1 := ⟨2, 0, by decide, by decide, by decide⟩
  refine ⟨link_leftovers, reachable_leftovers.components_of_link link_leftovers bridged ?_⟩
  simp only [bridged, List.forall_mem_cons, List.not_mem_nil, false_imp_iff, implies_true,
    and_true]
  exact ⟨⟨0, hAB⟩, ⟨1, hBA⟩, ⟨0, hAB⟩, ⟨1, hBA⟩⟩

example : (MutexTable.build leftoversGraph bridged).result.toOption.map (·.groups) =
    some #[⟨0, [0, 1], true⟩] := by
  decide

end TrackPlan.Registry
