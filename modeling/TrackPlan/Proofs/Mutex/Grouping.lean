import Mathlib.Data.List.Basic
import Mathlib.Data.List.Perm.Subperm
import TrackPlan.Mutex.Table
import TrackPlan.Proofs.Lists

/-!
# Tables of groups

A table is made by pushing one group after the other. `MutexTable.Lists` says that it holds the
listed groups, and that every edge of a group knows it: `Lists.push` is the step, `lists_ofSets` the
whole table.
-/

namespace TrackPlan.MutexTable

variable {t : MutexTable} {n id e k : Nat} {members : EdgeSet} {declared : Bool}
  {listed more : List (EdgeSet × Bool)} {sets : List EdgeSet}

/-- Members of a group know it, and the other edges keep what they know. -/
theorem getElem?_foldl_setIfInBounds (members : List Nat) (groupOf : Array Nat) :
    (members.foldl (fun groupOf edge => groupOf.setIfInBounds edge id) groupOf)[e]? =
      if e ∈ members ∧ e < groupOf.size then some id else groupOf[e]? := by
  induction members generalizing groupOf with
  | nil => simp
  | cons edge rest ih =>
    rw [List.foldl_cons, ih, Array.size_setIfInBounds, Array.getElem?_setIfInBounds]
    by_cases hr : e ∈ rest ∧ e < groupOf.size
    · rw [if_pos hr, if_pos ⟨List.mem_cons_of_mem _ hr.1, hr.2⟩]
    · rw [if_neg hr]
      by_cases he : edge = e
      · subst he
        by_cases hlt : edge < groupOf.size <;> simp [hlt]
      · have hiff : e ∈ edge :: rest ∧ e < groupOf.size ↔ e ∈ rest ∧ e < groupOf.size := by
          rw [List.mem_cons, or_iff_right (Ne.symm he)]
        rw [if_neg he, if_neg (mt hiff.1 hr)]

theorem size_foldl_setIfInBounds (members : List Nat) (groupOf : Array Nat) :
    (members.foldl (fun groupOf edge => groupOf.setIfInBounds edge id) groupOf).size =
      groupOf.size := by
  induction members generalizing groupOf with
  | nil => rfl
  | cons edge rest ih => rw [List.foldl_cons, ih, Array.size_setIfInBounds]

/-- The table holds the listed groups in their order. Every edge of a group knows it, and the others
have no group. -/
structure Lists (t : MutexTable) (n : Nat) (listed : List (EdgeSet × Bool)) : Prop where
  size_eq : t.groupOf.size = n
  groups_size : t.groups.size = listed.length
  group?_eq : ∀ k m, listed[k]? = some m → t.group? k = some ⟨k, m.1, m.2⟩
  groupOf?_eq : ∀ k m, listed[k]? = some m → ∀ e ∈ m.1, e < n → t.groupOf? e = some k
  groupOf?_of_notMem : ∀ e < n, (∀ m ∈ listed, e ∉ m.1) → t.groupOf? e = some ungrouped

theorem Lists.exists_listed (h : t.Lists n listed) {group : MutexGroup}
    (hk : t.group? k = some group) : ∃ m, listed[k]? = some m := by
  have hlt := (Array.getElem?_eq_some_iff.1 hk).1
  rw [h.groups_size] at hlt
  exact ⟨listed[k], List.getElem?_eq_getElem hlt⟩

theorem lists_start (n : Nat) : (start n).Lists n [] :=
  ⟨Array.size_replicate, rfl, fun _ _ h => by simp at h, fun _ _ h => by simp at h,
    fun e he _ => by simp [groupOf?, start, he]⟩

/-- The step: a group of edges that are in no other group. -/
theorem Lists.push (h : t.Lists n listed) (hdisj : ∀ m ∈ listed, ∀ e ∈ m.1, e ∉ members) :
    (t.push members declared).Lists n (listed ++ [(members, declared)]) where
  size_eq := (size_foldl_setIfInBounds members t.groupOf).trans h.size_eq
  groups_size := by
    rw [List.length_append, ← h.groups_size]
    exact Array.size_push _
  group?_eq := by
    intro k m hm
    unfold MutexTable.group? MutexTable.push
    dsimp only
    rw [Array.getElem?_push, h.groups_size]
    rcases getElem?_concat_eq_some_iff.1 hm with hm | ⟨rfl, rfl⟩
    · rw [if_neg (Nat.ne_of_lt (List.getElem?_eq_some_iff.1 hm).1)]
      exact h.group?_eq k m hm
    · rw [if_pos rfl]
  groupOf?_eq := by
    intro k m hm e he hlt
    unfold MutexTable.groupOf? MutexTable.push
    dsimp only
    rw [getElem?_foldl_setIfInBounds, h.size_eq, h.groups_size]
    rcases getElem?_concat_eq_some_iff.1 hm with hm | ⟨rfl, rfl⟩
    · rw [if_neg fun hmem => hdisj m (List.mem_of_getElem? hm) e he hmem.1]
      exact h.groupOf?_eq k m hm e he hlt
    · rw [if_pos ⟨he, hlt⟩]
  groupOf?_of_notMem := by
    intro e hlt hnone
    unfold MutexTable.groupOf? MutexTable.push
    dsimp only
    rw [getElem?_foldl_setIfInBounds, if_neg fun hmem => hnone (members, declared) (by simp) hmem.1]
    exact h.groupOf?_of_notMem e hlt fun m hm => hnone m (List.mem_append_left _ hm)

/-- If the groups hold all edges, an edge knows the one group that holds it. -/
theorem Lists.groupOf?_eq_some_iff (h : t.Lists n listed) (hlt : ∀ m ∈ listed, ∀ e ∈ m.1, e < n)
    (hcover : ∀ e < n, ∃ m ∈ listed, e ∈ m.1) :
    t.groupOf? e = some k ↔ ∃ m, listed[k]? = some m ∧ e ∈ m.1 := by
  constructor
  · intro he
    have hen : e < n := by
      rw [← h.size_eq]
      exact (Array.getElem?_eq_some_iff.1 he).1
    obtain ⟨m, hm, hem⟩ := hcover e hen
    obtain ⟨j, hj⟩ := List.getElem?_of_mem hm
    rw [h.groupOf?_eq j m hj e hem hen, Option.some.injEq] at he
    exact ⟨m, he ▸ hj, hem⟩
  · rintro ⟨m, hm, he⟩
    exact h.groupOf?_eq k m hm e he (hlt m (List.mem_of_getElem? hm) e he)

/-- Two groups share no edge. -/
def Apart (m m' : EdgeSet × Bool) : Prop := ∀ e ∈ m.1, e ∉ m'.1

/-- The run: groups that share no edge. -/
theorem Lists.foldl_push (h : t.Lists n listed) (hdisj : (listed ++ more).Pairwise Apart) :
    (more.foldl (fun t m => t.push m.1 m.2) t).Lists n (listed ++ more) := by
  induction more generalizing t listed with
  | nil => rwa [List.append_nil]
  | cons m rest ih =>
    rw [List.append_cons] at hdisj ⊢
    refine ih (h.push fun m' hm' => ?_) hdisj
    exact (List.pairwise_append.1 (List.pairwise_append.1 hdisj).1).2.2 m' hm' m (by simp)

/-- The edges that are in none of the sets. -/
def freeEdges (n : Nat) (sets : List EdgeSet) : List Nat :=
  (List.range n).filter fun edge => !sets.any (·.contains edge)

theorem mem_freeEdges : e ∈ freeEdges n sets ↔ e < n ∧ ∀ s ∈ sets, e ∉ s := by
  simp [freeEdges]

theorem freeEdges_ascending (n : Nat) (sets : List EdgeSet) :
    (freeEdges n sets).Pairwise (· < ·) := List.pairwise_lt_range.filter _

/-- The groups of a table of declared sets: those that are not empty, then each other edge. -/
def groupsOf (n : Nat) (sets : List EdgeSet) : List (EdgeSet × Bool) :=
  (sets.filter (!·.isEmpty)).map (·, true) ++ (freeEdges n sets).map fun edge => ([edge], false)

theorem groupsOf_apart (h : sets.Pairwise fun s t => ∀ e ∈ s, e ∉ t) :
    (groupsOf n sets).Pairwise Apart := by
  refine List.pairwise_append.2 ⟨?_, ?_, ?_⟩
  · exact List.pairwise_map.2 (h.filter _)
  · refine List.pairwise_map.2 ((freeEdges_ascending n sets).imp fun {a b} hab e he he' => ?_)
    rw [List.mem_singleton] at he he'
    omega
  · rintro _ hm _ hm' e he he'
    obtain ⟨s, hs, rfl⟩ := List.mem_map.1 hm
    obtain ⟨a, ha, rfl⟩ := List.mem_map.1 hm'
    rw [List.mem_singleton] at he'
    exact (mem_freeEdges.1 ha).2 s (List.mem_of_mem_filter hs) (he' ▸ he)

theorem lt_of_mem_groupsOf (h : ∀ s ∈ sets, ∀ e ∈ s, e < n) :
    ∀ m ∈ groupsOf n sets, ∀ e ∈ m.1, e < n := by
  intro m hm e he
  rcases List.mem_append.1 hm with hm | hm
  · obtain ⟨s, hs, rfl⟩ := List.mem_map.1 hm
    exact h s (List.mem_of_mem_filter hs) e he
  · obtain ⟨a, ha, rfl⟩ := List.mem_map.1 hm
    rw [List.mem_singleton] at he
    exact he ▸ (mem_freeEdges.1 ha).1

/-- The groups hold all edges. -/
theorem exists_mem_groupsOf (h : e < n) : ∃ m ∈ groupsOf n sets, e ∈ m.1 := by
  by_cases hs : ∃ s ∈ sets, e ∈ s
  · obtain ⟨s, hs, he⟩ := hs
    have hne : s ≠ [] := List.ne_nil_of_mem he
    exact ⟨(s, true), List.mem_append_left _ (List.mem_map_of_mem (by simp [hs, hne])), he⟩
  · have hfree : e ∈ freeEdges n sets :=
      mem_freeEdges.2 ⟨h, fun s hmem he => hs ⟨s, hmem, he⟩⟩
    exact ⟨([e], false), List.mem_append_right _ (List.mem_map.2 ⟨e, hfree, rfl⟩), by simp⟩

/-- Sets that share no edge are not more than the edges, except for empty ones. -/
theorem length_le_of_apart (h : sets.Pairwise fun s t => ∀ e ∈ s, e ∉ t)
    (hne : ∀ s ∈ sets, s ≠ []) (hlt : ∀ s ∈ sets, ∀ e ∈ s, e < n) : sets.length ≤ n := by
  have hhead : ∀ s ∈ sets, s.headD 0 ∈ s := by
    intro s hs
    cases s with
    | nil => exact absurd rfl (hne [] hs)
    | cons e s => exact List.mem_cons_self
  have hnodup : (sets.map (·.headD 0)).Nodup := by
    refine List.pairwise_map.2 (h.imp_of_mem fun {s t} hs ht hst heq => ?_)
    exact hst _ (hhead s hs) (heq ▸ hhead t ht)
  have hsub : sets.map (·.headD 0) ⊆ List.range n := by
    intro e he
    obtain ⟨s, hs, rfl⟩ := List.mem_map.1 he
    exact List.mem_range.2 (hlt s hs _ (hhead s hs))
  simpa using (List.subperm_of_subset hnodup hsub).length_le

/-! ## Edges without a group -/

/-- An edge that gets a group of its own leaves the others alone, so what an edge has when its turn
comes is what it had before. -/
theorem foldl_pushAlone {edges : List Nat} (h : edges.Nodup) : edges.foldl pushAlone t =
    (edges.filter fun edge => t.groupOf[edge]? = some ungrouped).foldl
      (fun t edge => t.push [edge] false) t := by
  induction edges generalizing t with
  | nil => rfl
  | cons edge rest ih =>
    obtain ⟨hfresh, hrest⟩ := List.nodup_cons.1 h
    rw [List.foldl_cons, ih hrest]
    unfold pushAlone
    by_cases he : t.groupOf[edge]? = some ungrouped
    · have hothers : ∀ e ∈ rest, (t.push [edge] false).groupOf[e]? = t.groupOf[e]? := by
        intro e hmem
        have hne : edge ≠ e := fun heq => hfresh (heq ▸ hmem)
        exact Array.getElem?_setIfInBounds_ne hne
      rw [if_pos he, List.filter_cons_of_pos (by simpa using he), List.foldl_cons]
      congr 1
      exact List.filter_congr fun e hmem => by rw [hothers e hmem]
    · rw [if_neg he, List.filter_cons_of_neg (by simpa using he)]

/-- The table of sets that share no edge, if there are fewer than 32 bits can number. -/
theorem lists_ofSets (h : sets.Pairwise fun s t => ∀ e ∈ s, e ∉ t)
    (hlen : (sets.filter (!·.isEmpty)).length ≤ ungrouped) :
    (ofSets n (sets.filter (!·.isEmpty))).Lists n (groupsOf n sets) := by
  have hapart := groupsOf_apart (n := n) h
  have hdeclared := (lists_start n).foldl_push (List.pairwise_append.1 hapart).1
  rw [List.nil_append, List.foldl_map] at hdeclared
  have hfree : (List.range n).filter (fun edge =>
      ((sets.filter (!·.isEmpty)).foldl (·.push · true) (start n)).groupOf[edge]? =
        some ungrouped) = freeEdges n sets := by
    refine List.filter_congr fun e he => ?_
    rw [List.mem_range] at he
    by_cases hs : ∃ s ∈ sets, e ∈ s
    · obtain ⟨s, hmem, hes⟩ := hs
      have hlive : s ∈ sets.filter (!·.isEmpty) :=
        List.mem_filter.2 ⟨hmem, by simpa using List.ne_nil_of_mem hes⟩
      obtain ⟨k, hk⟩ := List.getElem?_of_mem hlive
      have hgroup := hdeclared.groupOf?_eq k (s, true) (by rw [List.getElem?_map, hk]; rfl) e hes he
      have hlt := (List.getElem?_eq_some_iff.1 hk).1
      have hne : k ≠ ungrouped := by omega
      unfold groupOf? at hgroup
      rw [hgroup]
      simpa [hne] using ⟨s, hmem, hes⟩
    · have hgroup := hdeclared.groupOf?_of_notMem e he fun m hm hem => by
        obtain ⟨s, hmem, rfl⟩ := List.mem_map.1 hm
        exact hs ⟨s, List.mem_of_mem_filter hmem, hem⟩
      unfold groupOf? at hgroup
      rw [hgroup]
      simpa using hs
  have hfold : ofSets n (sets.filter (!·.isEmpty)) =
      (groupsOf n sets).foldl (fun t m => t.push m.1 m.2) (start n) := by
    unfold ofSets groupsOf
    rw [foldl_pushAlone List.nodup_range, hfree, List.foldl_append, List.foldl_map, List.foldl_map]
  rw [hfold]
  exact (lists_start n).foldl_push hapart

end TrackPlan.MutexTable
