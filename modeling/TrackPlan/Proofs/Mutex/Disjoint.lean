import Mathlib.Data.List.Sort
import Mathlib.Data.Set.Lattice
import Mathlib.Order.CompletePartialOrder
import TrackPlan.Proofs.Mutex.Components

/-!
# Records that share no edge

Where no two mutex records share an edge and none is empty, each has a group of its own: the
declared groups are what the records tie together, one by one (`Components.declared_of_disjoint`).
-/

namespace TrackPlan

variable {cs : List (Set Nat)} {c : Set Nat} {i j : Nat}

/-- A set that shares no edge with another one overlaps only itself. -/
theorem Overlapping.eq_of_disjoint (hcs : cs.Pairwise Disjoint) (h : Overlapping cs i j) :
    i = j := by
  obtain ⟨c, d, hc, hd, e, hec, hed⟩ := h
  obtain ⟨hi, rfl⟩ := List.getElem?_eq_some_iff.1 hc
  obtain ⟨hj, rfl⟩ := List.getElem?_eq_some_iff.1 hd
  rw [List.pairwise_iff_getElem] at hcs
  rcases Nat.lt_trichotomy i j with hij | hij | hij
  · exact absurd hed (Set.disjoint_left.1 (hcs i j hi hj hij) hec)
  · exact hij
  · exact absurd hec (Set.disjoint_left.1 (hcs j i hj hi hij) hed)

theorem Connected.eq_of_disjoint (hcs : cs.Pairwise Disjoint) (h : Connected cs i j) : i = j := by
  induction h with
  | refl => rfl
  | tail _ hjk ih => exact ih.trans (hjk.eq_of_disjoint hcs)

/-- Disjoint sets are components by themselves. -/
theorem component_eq_of_disjoint (hcs : cs.Pairwise Disjoint) (hc : cs[i]? = some c) :
    component cs i = c := by
  ext e
  constructor
  · rintro ⟨j, d, hij, hd, he⟩
    obtain rfl := hij.eq_of_disjoint hcs
    rw [hc, Option.some.injEq] at hd
    exact hd ▸ he
  · exact mem_component_of_mem hc

theorem isFirst_of_disjoint (hcs : cs.Pairwise Disjoint) (hi : i < cs.length) : IsFirst cs i :=
  ⟨hi, fun _ hij => Nat.le_of_eq (hij.eq_of_disjoint hcs)⟩

namespace Graph

variable {g : Graph} {decls : List MutexDecl} {t : MutexTable} {firsts free : List Nat}

/-- As many groups are declared as there are components. -/
theorem Components.declaredCount_eq (h : g.Components decls t firsts free) :
    t.declaredCount = firsts.length := by
  have hdeclared : t.groups.toList.map MutexGroup.declared =
      List.replicate firsts.length true ++ List.replicate free.length false := by
    refine List.ext_getElem (by simp [h.groups_size]) fun k hk _ => ?_
    rw [List.length_map, Array.length_toList] at hk
    have hget : t.group? k = some t.groups[k] := Array.getElem?_eq_getElem hk
    rw [List.getElem_map, Array.getElem_toList]
    rcases h.group_cases hget with ⟨i, members, hi, hgroup, -⟩ | ⟨e, hlow, -, hgroup⟩
    · rw [hgroup, List.getElem_append_left (by simpa using (List.getElem?_eq_some_iff.1 hi).1),
        List.getElem_replicate]
    · rw [hgroup, List.getElem_append_right (by simpa using hlow), List.getElem_replicate]
  have hcount := congrArg (List.countP id) hdeclared
  rw [List.countP_map, List.countP_append, List.countP_replicate, List.countP_replicate] at hcount
  unfold MutexTable.declaredCount
  rw [← Array.countP_toList]
  simpa using hcount

/-- Each of some records that share no edge has its own group. -/
theorem Components.declared_of_disjoint (h : g.Components decls t firsts free)
    (hdisjoint : (g.allTied decls).Pairwise Disjoint)
    (hne : ∀ d ∈ decls, (g.tied d).Nonempty) :
    t.declaredCount = decls.length ∧ ∀ group ∈ t.groups, group.declared = true →
      group.members.Ascending ∧ ∃ d ∈ decls, ∀ e, e ∈ group.members ↔ e ∈ g.tied d := by
  have hlength : (g.allTied decls).length = decls.length := List.length_map _
  have hfirsts : firsts = List.range decls.length := by
    refine h.firsts_ascending.eq_of_mem_iff List.pairwise_lt_range fun i => ?_
    rw [h.mem_firsts_iff, List.mem_range]
    constructor
    · rintro ⟨hi, -⟩
      exact hlength ▸ hi.1
    · intro hi
      have hget : (g.allTied decls)[i]? = some (g.tied decls[i]) := by
        rw [allTied, List.getElem?_map, List.getElem?_eq_getElem hi, Option.map_some]
      exact ⟨isFirst_of_disjoint hdisjoint (hlength ▸ hi), _, hget, hne _ (List.getElem_mem hi)⟩
  refine ⟨by rw [h.declaredCount_eq, hfirsts, List.length_range], fun group hgroup hd => ?_⟩
  obtain ⟨k, hk, rfl⟩ := Array.mem_iff_getElem.1 hgroup
  have hget : t.group? k = some t.groups[k] := Array.getElem?_eq_getElem hk
  rcases h.group_cases hget with ⟨i, members, hi, hgroup, hascending, hmem⟩ | ⟨e, -, -, hgroup⟩
  · have hlt : i < decls.length := by
      rw [← List.mem_range, ← hfirsts]
      exact List.mem_of_getElem? hi
    have hcomponent : component (g.allTied decls) i = g.tied decls[i] :=
      component_eq_of_disjoint hdisjoint (by
        rw [allTied, List.getElem?_map, List.getElem?_eq_getElem hlt, Option.map_some])
    rw [hgroup]
    exact ⟨hascending, _, List.getElem_mem hlt, fun e => by rw [hmem, hcomponent]⟩
  · rw [hgroup] at hd
    cases hd

end Graph

end TrackPlan
