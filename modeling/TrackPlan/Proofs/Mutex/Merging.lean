import Mathlib.Data.List.Forall2
import Mathlib.Data.Set.Basic
import Mathlib.Logic.Relation
import TrackPlan.Mutex.Closure
import TrackPlan.Proofs.Lists

/-!
# Merging sets that overlap

Sets are put into a list one after the other, and those that overlap are merged. A set that bridges
several earlier ones merges them all into the first. What the list holds in the end are the unions
of the sets of each component, in the order of the first set of each (`Merged.foldl`).

1. `connected_concat` says which sets one more set connects.
2. `Merged.step` says what the list must hold after one more set.
3. `Merged.mergeSet` says that it does, and `Merged.foldl` is the run.
-/

namespace TrackPlan

/-- Puts a closed set among earlier ones: the sets it overlaps are merged into the first of them,
and a set that overlaps none comes last. -/
def mergeSet (earlier : List EdgeSet) (s : EdgeSet) : List EdgeSet :=
  match earlier with
  | [] => [s]
  | first :: rest =>
    if EdgeSet.overlaps s first then
      let merged := (rest.filter (EdgeSet.overlaps s)).foldl EdgeSet.union (EdgeSet.union first s)
      merged :: rest.filter fun t => !EdgeSet.overlaps s t
    else first :: mergeSet rest s

/-! ## Components of a list of sets -/

variable {cs : List (Set Nat)} {c d : Set Nat} {e i j k : Nat}

/-- Two listed sets share an edge. -/
def Overlapping (cs : List (Set Nat)) (i j : Nat) : Prop :=
  ∃ c d, cs[i]? = some c ∧ cs[j]? = some d ∧ ∃ e, e ∈ c ∧ e ∈ d

/-- A chain of listed sets leads from one to the other, in which neighbours share an edge. -/
def Connected (cs : List (Set Nat)) : Nat → Nat → Prop := Relation.ReflTransGen (Overlapping cs)

/-- The edges of all sets that are connected to one. -/
def component (cs : List (Set Nat)) (i : Nat) : Set Nat :=
  {e | ∃ j c, Connected cs i j ∧ cs[j]? = some c ∧ e ∈ c}

/-- No earlier set is connected to this one. -/
def IsFirst (cs : List (Set Nat)) (i : Nat) : Prop :=
  i < cs.length ∧ ∀ j, Connected cs i j → i ≤ j

theorem Overlapping.symm (h : Overlapping cs i j) : Overlapping cs j i := by
  obtain ⟨c, d, hc, hd, e, hec, hed⟩ := h
  exact ⟨d, c, hd, hc, e, hed, hec⟩

theorem Overlapping.lt (h : Overlapping cs i j) : i < cs.length ∧ j < cs.length := by
  obtain ⟨c, d, hc, hd, -⟩ := h
  exact ⟨(List.getElem?_eq_some_iff.1 hc).1, (List.getElem?_eq_some_iff.1 hd).1⟩

theorem Connected.refl (cs : List (Set Nat)) (i : Nat) : Connected cs i i :=
  Relation.ReflTransGen.refl

theorem Connected.symm (h : Connected cs i j) : Connected cs j i := by
  induction h with
  | refl => exact Connected.refl cs i
  | tail _ hjk ih => exact Relation.ReflTransGen.head hjk.symm ih

theorem Connected.trans (h : Connected cs i j) (h' : Connected cs j k) : Connected cs i k :=
  Relation.ReflTransGen.trans h h'

theorem Connected.eq_or_lt (h : Connected cs i j) : i = j ∨ i < cs.length ∧ j < cs.length := by
  induction h with
  | refl => exact Or.inl rfl
  | tail _ hjk ih =>
    rcases ih with rfl | hi
    · exact Or.inr hjk.lt
    · exact Or.inr ⟨hi.1, hjk.lt.2⟩

theorem mem_component_iff :
    e ∈ component cs i ↔ ∃ j c, Connected cs i j ∧ cs[j]? = some c ∧ e ∈ c := Iff.rfl

theorem Connected.mem_component (h : Connected cs i j) (he : e ∈ component cs j) :
    e ∈ component cs i := by
  obtain ⟨k, c, hk, hc, hec⟩ := he
  exact ⟨k, c, h.trans hk, hc, hec⟩

/-- Components that share an edge are connected. -/
theorem connected_of_mem_component (hi : e ∈ component cs i) (hj : e ∈ component cs j) :
    Connected cs i j := by
  obtain ⟨k, c, hk, hc, hec⟩ := hi
  obtain ⟨l, d, hl, hd, hed⟩ := hj
  exact (hk.tail ⟨c, d, hc, hd, e, hec, hed⟩).trans hl.symm

/-- Every set is connected to the first of its component. -/
theorem exists_isFirst (hi : i < cs.length) : ∃ j, IsFirst cs j ∧ Connected cs j i := by
  induction i using Nat.strong_induction_on with
  | _ i ih =>
    by_cases h : ∃ j < i, Connected cs i j
    · obtain ⟨j, hj, hij⟩ := h
      obtain ⟨k, hk, hkj⟩ := ih j hj (hj.trans hi)
      exact ⟨k, hk, hkj.trans hij.symm⟩
    · exact ⟨i, ⟨hi, fun j hij => Nat.not_lt.1 fun hj => h ⟨j, hj, hij⟩⟩, .refl cs i⟩

theorem IsFirst.eq_of_connected (hi : IsFirst cs i) (hj : IsFirst cs j) (h : Connected cs i j) :
    i = j :=
  Nat.le_antisymm (hi.2 j h) (hj.2 i h.symm)

/-- The sets before and behind a link of a chain are not empty. -/
theorem Connected.nonempty (h : Connected cs i j) (hj : ∃ c, cs[j]? = some c ∧ c.Nonempty) :
    ∃ c, cs[i]? = some c ∧ c.Nonempty := by
  rcases Relation.ReflTransGen.cases_head h with rfl | ⟨k, ⟨c, d, hc, -, e, he, -⟩, -⟩
  · exact hj
  · exact ⟨c, hc, e, he⟩

/-- Some listed set holds both edges. -/
def Together (cs : List (Set Nat)) (e f : Nat) : Prop := ∃ c ∈ cs, e ∈ c ∧ f ∈ c

theorem mem_component_of_mem (hc : cs[i]? = some c) (he : e ∈ c) : e ∈ component cs i :=
  ⟨i, c, .refl cs i, hc, he⟩

/-- Two edges are in one component if a chain of edges leads from one to the other, in which some
set holds each two neighbours. The order of the sets is of no account. -/
theorem exists_component_iff {f : Nat} : (∃ i, e ∈ component cs i ∧ f ∈ component cs i) ↔
    Relation.TransGen (Together cs) e f := by
  constructor
  · intro hs
    obtain ⟨i, ⟨j, c, hij, hc, hec⟩, ⟨k, d, hik, hd, hfd⟩⟩ := hs
    have hjk := hij.symm.trans hik
    clear hij hik
    induction hjk using Relation.ReflTransGen.head_induction_on generalizing e c with
    | refl =>
      rw [hc] at hd
      cases hd
      exact .single ⟨_, List.mem_of_getElem? hc, hec, hfd⟩
    | head hlink _ ih =>
      obtain ⟨c', d', hc', hd', x, hxc, hxd⟩ := hlink
      rw [hc] at hc'
      cases hc'
      exact .head ⟨c, List.mem_of_getElem? hc, hec, hxc⟩ (ih d' hd' hxd)
  · intro h
    induction h with
    | single h =>
      obtain ⟨c, hc, he, hf⟩ := h
      obtain ⟨i, hi⟩ := List.getElem?_of_mem hc
      exact ⟨i, mem_component_of_mem hi he, mem_component_of_mem hi hf⟩
    | tail _ h ih =>
      obtain ⟨i, he, hf⟩ := ih
      obtain ⟨c, hc, hf', hg⟩ := h
      obtain ⟨j, hj⟩ := List.getElem?_of_mem hc
      have hij := connected_of_mem_component hf (mem_component_of_mem hj hf')
      exact ⟨i, he, hij.mem_component (mem_component_of_mem hj hg)⟩

/-! ## One more set -/

/-- The component of a set meets the set that comes next, or the set is that one. -/
def Touches (cs : List (Set Nat)) (c : Set Nat) (i : Nat) : Prop :=
  i = cs.length ∨ ∃ e, e ∈ component cs i ∧ e ∈ c

theorem Overlapping.concat (h : Overlapping cs i j) : Overlapping (cs ++ [c]) i j := by
  obtain ⟨c', d, hc, hd, he⟩ := h
  exact ⟨c', d, getElem?_concat_eq_some_iff.2 (Or.inl hc),
    getElem?_concat_eq_some_iff.2 (Or.inl hd), he⟩

theorem Connected.concat (h : Connected cs i j) : Connected (cs ++ [c]) i j :=
  Relation.ReflTransGen.mono (fun _ _ => Overlapping.concat) i j h

theorem touches_of_mem (hd : cs[i]? = some d) (hed : e ∈ d) (hec : e ∈ c) : Touches cs c i :=
  Or.inr ⟨e, ⟨i, d, .refl cs i, hd, hed⟩, hec⟩

theorem Connected.touches (h : Connected cs i j) (hj : Touches cs c j) : Touches cs c i := by
  rcases hj with rfl | ⟨e, he, hec⟩
  · rcases h.eq_or_lt with rfl | hlt
    · exact Or.inl rfl
    · exact absurd hlt.2 (Nat.lt_irrefl _)
  · exact Or.inr ⟨e, h.mem_component he, hec⟩

theorem overlapping_concat (h : Overlapping (cs ++ [c]) i j) :
    Overlapping cs i j ∨ Touches cs c i ∧ Touches cs c j := by
  obtain ⟨c', d, hc, hd, e, hec, hed⟩ := h
  rcases getElem?_concat_eq_some_iff.1 hc with hi | ⟨rfl, rfl⟩ <;>
    rcases getElem?_concat_eq_some_iff.1 hd with hj | ⟨rfl, rfl⟩
  · exact Or.inl ⟨c', d, hi, hj, e, hec, hed⟩
  · exact Or.inr ⟨touches_of_mem hi hec hed, Or.inl rfl⟩
  · exact Or.inr ⟨Or.inl rfl, touches_of_mem hj hed hec⟩
  · exact Or.inr ⟨Or.inl rfl, Or.inl rfl⟩

theorem Touches.connected (h : Touches cs c i) : Connected (cs ++ [c]) i cs.length := by
  rcases h with rfl | ⟨e, ⟨j, d, hij, hd, hed⟩, hec⟩
  · exact .refl _ _
  · exact hij.concat.tail ⟨d, c, getElem?_concat_eq_some_iff.2 (Or.inl hd),
      List.getElem?_concat_length, e, hed, hec⟩

/-- One more set connects all that it touches, and nothing else. -/
theorem connected_concat : Connected (cs ++ [c]) i j ↔
    Connected cs i j ∨ Touches cs c i ∧ Touches cs c j := by
  constructor
  · intro h
    induction h with
    | refl => exact Or.inl (.refl cs i)
    | tail _ hjk ih =>
      rcases ih with hij | ⟨hi, hj⟩ <;> rcases overlapping_concat hjk with hjk | ⟨hj', hk⟩
      · exact Or.inl (hij.tail hjk)
      · exact Or.inr ⟨hij.touches hj', hk⟩
      · exact Or.inr ⟨hi, Connected.touches (.single hjk.symm) hj⟩
      · exact Or.inr ⟨hi, hk⟩
  · rintro (h | ⟨hi, hj⟩)
    · exact h.concat
    · exact hi.connected.trans hj.connected.symm

/-- A component that the new set does not touch stays as it is. -/
theorem component_concat_of_not_touches (h : ¬ Touches cs c i) :
    component (cs ++ [c]) i = component cs i := by
  ext e
  simp only [mem_component_iff, connected_concat, h, false_and, or_false]
  constructor
  · intro hs
    obtain ⟨j, d, hij, hd, hed⟩ := hs
    rcases getElem?_concat_eq_some_iff.1 hd with hd | ⟨rfl, -⟩
    · exact ⟨j, d, hij, hd, hed⟩
    · exact absurd (hij.touches (Or.inl rfl)) h
  · intro hs
    obtain ⟨j, d, hij, hd, hed⟩ := hs
    exact ⟨j, d, hij, getElem?_concat_eq_some_iff.2 (Or.inl hd), hed⟩

/-- The components that the new set touches become one with it. -/
theorem mem_component_concat_of_touches (h : Touches cs c i) :
    e ∈ component (cs ++ [c]) i ↔ e ∈ c ∨ ∃ j, Touches cs c j ∧ e ∈ component cs j := by
  constructor
  · intro hs
    obtain ⟨j, d, hij, hd, hed⟩ := hs
    have hj : Touches cs c j := by
      rcases connected_concat.1 hij with hij | hij
      · exact hij.symm.touches h
      · exact hij.2
    rcases getElem?_concat_eq_some_iff.1 hd with hd | ⟨-, rfl⟩
    · exact Or.inr ⟨j, hj, j, d, .refl cs j, hd, hed⟩
    · exact Or.inl hed
  · rintro (hec | ⟨j, hj, k, d, hjk, hd, hed⟩)
    · exact ⟨cs.length, c, h.connected, List.getElem?_concat_length, hec⟩
    · exact ⟨k, d, (connected_concat.2 (Or.inr ⟨h, hj⟩)).trans hjk.concat,
        getElem?_concat_eq_some_iff.2 (Or.inl hd), hed⟩

theorem isFirst_concat_of_not_touches (h : ¬ Touches cs c i) :
    IsFirst (cs ++ [c]) i ↔ IsFirst cs i := by
  have hne : i ≠ cs.length := fun hi => h (Or.inl hi)
  unfold IsFirst
  simp only [connected_concat, h, false_and, or_false, List.length_append, List.length_singleton]
  apply and_congr_left
  intro _
  omega

theorem Touches.isFirst_concat_iff (h : Touches cs c i) :
    IsFirst (cs ++ [c]) i ↔ ∀ j, Touches cs c j → i ≤ j := by
  have hlt : i < (cs ++ [c]).length := by
    rw [List.length_append, List.length_singleton]
    rcases h with rfl | ⟨e, ⟨j, d, hij, hd, -⟩, -⟩
    · omega
    · have := (List.getElem?_eq_some_iff.1 hd).1
      rcases hij.eq_or_lt with rfl | hi <;> omega
  constructor
  · intro hi j hj
    exact hi.2 j (connected_concat.2 (Or.inr ⟨h, hj⟩))
  · refine fun hmin => ⟨hlt, fun j hij => hmin j ?_⟩
    rcases connected_concat.1 hij with hij | hij
    · exact hij.symm.touches h
    · exact hij.2

/-! ## Lists of merged sets -/

variable {parts parts' : List (Nat × EdgeSet)} {p : Nat × EdgeSet} {s t : EdgeSet}
  {sets : List EdgeSet}

/-- The list holds the merged sets: one for each component, under the position of its first set. -/
structure Merged (cs : List (Set Nat)) (parts : List (Nat × EdgeSet)) : Prop where
  ascending : parts.Pairwise fun p q => p.1 < q.1
  isFirst_iff : ∀ i, IsFirst cs i ↔ ∃ p ∈ parts, p.1 = i
  mem_iff : ∀ p ∈ parts, ∀ e, e ∈ p.2 ↔ e ∈ component cs p.1

theorem Merged.nil : Merged [] [] :=
  ⟨.nil, fun i => by simp [IsFirst], fun p hp => absurd hp List.not_mem_nil⟩

theorem Merged.isFirst (h : Merged cs parts) (hp : p ∈ parts) : IsFirst cs p.1 :=
  (h.isFirst_iff p.1).2 ⟨p, hp, rfl⟩

/-- Every set has its component in the list. -/
theorem Merged.exists_connected (h : Merged cs parts) (hi : i < cs.length) :
    ∃ p ∈ parts, Connected cs p.1 i := by
  obtain ⟨j, hj, hji⟩ := exists_isFirst hi
  obtain ⟨p, hp, rfl⟩ := (h.isFirst_iff j).1 hj
  exact ⟨p, hp, hji⟩

/-- The new set touches a merged set if it overlaps it. -/
theorem Merged.touches_iff (h : Merged cs parts) (hp : p ∈ parts) (hs : ∀ e, e ∈ s ↔ e ∈ c) :
    Touches cs c p.1 ↔ EdgeSet.overlaps s p.2 = true := by
  have hlt := (h.isFirst hp).1
  unfold Touches
  rw [EdgeSet.overlaps_iff]
  simp only [h.mem_iff p hp, hs, and_comm, Nat.ne_of_lt hlt, false_or]

/-- What the new set touches beside itself is connected to a merged set that it overlaps. -/
theorem Merged.exists_of_touches (h : Merged cs parts) (hs : ∀ e, e ∈ s ↔ e ∈ c)
    (hi : Touches cs c i) (hne : i ≠ cs.length) :
    ∃ p ∈ parts, EdgeSet.overlaps s p.2 = true ∧ Connected cs p.1 i := by
  have hlt : i < cs.length := by
    rcases hi with hi | ⟨e, ⟨j, d, hij, hd, -⟩, -⟩
    · exact absurd hi hne
    · have := (List.getElem?_eq_some_iff.1 hd).1
      rcases hij.eq_or_lt with rfl | hlt <;> omega
  obtain ⟨p, hp, hpi⟩ := h.exists_connected hlt
  exact ⟨p, hp, (h.touches_iff hp hs).1 (hpi.touches hi), hpi⟩

/-- The step, whatever makes it: the merged sets that the new set overlaps give way to one that
holds them all, under the first position that the new set touches. -/
theorem Merged.step (h : Merged cs parts) (hs : ∀ e, e ∈ s ↔ e ∈ c)
    (hmem : ∀ q, q ∈ parts' ↔ q ∈ parts ∧ ¬ EdgeSet.overlaps s q.2 = true ∨ q = p)
    (hp : Touches cs c p.1) (hmin : ∀ i, Touches cs c i → p.1 ≤ i)
    (hedges : ∀ e, e ∈ p.2 ↔ e ∈ s ∨ ∃ q ∈ parts, EdgeSet.overlaps s q.2 = true ∧ e ∈ q.2)
    (hasc : parts'.Pairwise fun p q => p.1 < q.1) : Merged (cs ++ [c]) parts' where
  ascending := hasc
  isFirst_iff := by
    intro i
    constructor
    · intro hi
      by_cases hti : Touches cs c i
      · refine ⟨p, (hmem p).2 (Or.inr rfl), ?_⟩
        exact Nat.le_antisymm (hmin i hti) (hti.isFirst_concat_iff.1 hi p.1 hp)
      · rw [isFirst_concat_of_not_touches hti] at hi
        obtain ⟨q, hq, rfl⟩ := (h.isFirst_iff i).1 hi
        exact ⟨q, (hmem q).2 (Or.inl ⟨hq, mt (h.touches_iff hq hs).2 hti⟩), rfl⟩
    · rintro ⟨q, hq, rfl⟩
      rcases (hmem q).1 hq with ⟨hq, hov⟩ | rfl
      · rw [isFirst_concat_of_not_touches (mt (h.touches_iff hq hs).1 hov)]
        exact h.isFirst hq
      · exact hp.isFirst_concat_iff.2 hmin
  mem_iff := by
    intro q hq e
    rcases (hmem q).1 hq with ⟨hq, hov⟩ | rfl
    · rw [component_concat_of_not_touches (mt (h.touches_iff hq hs).1 hov)]
      exact h.mem_iff q hq e
    · rw [mem_component_concat_of_touches hp, hedges, hs]
      refine or_congr_right ⟨?_, ?_⟩
      · intro hx
        obtain ⟨q, hq, hov, he⟩ := hx
        exact ⟨q.1, (h.touches_iff hq hs).2 hov, (h.mem_iff q hq e).1 he⟩
      · intro hx
        obtain ⟨j, hj, k, d, hjk, hd, hed⟩ := hx
        have hk := (List.getElem?_eq_some_iff.1 hd).1
        obtain ⟨q, hq, hov, hqk⟩ := h.exists_of_touches hs (hjk.symm.touches hj) hk.ne
        exact ⟨q, hq, hov, (h.mem_iff q hq e).2 ⟨k, d, hqk, hd, hed⟩⟩

/-- The merged sets share no edge. -/
theorem Merged.apart (h : Merged cs parts) :
    (parts.map Prod.snd).Pairwise fun s t => ∀ e ∈ s, e ∉ t := by
  refine List.pairwise_map.2 (h.ascending.imp_of_mem fun {p q} hp hq hlt e he he' => ?_)
  have hpq := connected_of_mem_component ((h.mem_iff p hp e).1 he) ((h.mem_iff q hq e).1 he')
  exact absurd ((h.isFirst hp).eq_of_connected (h.isFirst hq) hpq) (Nat.ne_of_lt hlt)

/-! ## What merging does -/

theorem mem_foldl_union {e : Nat} : e ∈ sets.foldl EdgeSet.union s ↔ e ∈ s ∨ ∃ t ∈ sets, e ∈ t := by
  induction sets generalizing s with
  | nil => simp
  | cons t rest ih =>
    rw [List.foldl_cons, ih, EdgeSet.mem_union, or_assoc]
    simp

section Kept

variable {P : EdgeSet → Prop} (hunion : ∀ {s t : EdgeSet}, P s → P (EdgeSet.union s t))

include hunion

theorem foldl_union_of (hs : P s) : P (sets.foldl EdgeSet.union s) := by
  induction sets generalizing s with
  | nil => exact hs
  | cons t rest ih => exact ih (hunion hs)

/-- What a union has from its first set, merged sets have from all sets. -/
theorem forall_mem_mergeSet (hs : P s) (h : ∀ t ∈ sets, P t) : ∀ t ∈ mergeSet sets s, P t := by
  induction sets with
  | nil => simpa [mergeSet] using hs
  | cons first rest ih =>
    obtain ⟨hfirst, hrest⟩ := List.forall_mem_cons.1 h
    unfold mergeSet
    split
    · refine List.forall_mem_cons.2 ⟨?_, fun t ht => hrest t (List.mem_of_mem_filter ht)⟩
      exact foldl_union_of hunion (hunion hfirst)
    · exact List.forall_mem_cons.2 ⟨hfirst, ih hrest⟩

theorem forall_mem_foldl_mergeSet {earlier : List EdgeSet} (h : ∀ s ∈ sets, P s)
    (he : ∀ t ∈ earlier, P t) : ∀ t ∈ sets.foldl mergeSet earlier, P t := by
  induction sets generalizing earlier with
  | nil => exact he
  | cons s rest ih =>
    obtain ⟨hs, hrest⟩ := List.forall_mem_cons.1 h
    exact ih hrest (forall_mem_mergeSet hunion hs he)

end Kept

theorem mergeSet_of_not_overlaps (h : ∀ t ∈ sets, ¬ EdgeSet.overlaps s t = true) :
    mergeSet sets s = sets ++ [s] := by
  induction sets with
  | nil => rfl
  | cons t rest ih =>
    obtain ⟨ht, hrest⟩ := List.forall_mem_cons.1 h
    unfold mergeSet
    rw [if_neg ht, ih hrest, List.cons_append]

theorem mergeSet_of_overlaps {before rest : List EdgeSet}
    (h : ∀ t ∈ before, ¬ EdgeSet.overlaps s t = true) (ht : EdgeSet.overlaps s t = true) :
    mergeSet (before ++ t :: rest) s = before ++
      (rest.filter (EdgeSet.overlaps s)).foldl EdgeSet.union (EdgeSet.union t s) ::
        rest.filter fun u => !EdgeSet.overlaps s u := by
  induction before with
  | nil =>
    rw [List.nil_append, List.nil_append, mergeSet, if_pos ht]
  | cons u before ih =>
    obtain ⟨hu, hbefore⟩ := List.forall_mem_cons.1 h
    rw [List.cons_append, mergeSet, if_neg hu, ih hbefore, List.cons_append]

/-- Merging a set that overlaps nothing. -/
theorem Merged.mergeSet_of_not_overlaps (h : Merged cs parts) (hs : ∀ e, e ∈ s ↔ e ∈ c)
    (hnone : ∀ p ∈ parts, ¬ EdgeSet.overlaps s p.2 = true) :
    Merged (cs ++ [c]) (parts ++ [(cs.length, s)]) := by
  refine h.step hs (p := (cs.length, s)) (fun q => ?_) (Or.inl rfl) (fun i hi => ?_)
    (fun e => ?_) ?_
  · rw [List.mem_append, List.mem_singleton]
    exact or_congr_left ⟨fun hq => ⟨hq, hnone q hq⟩, And.left⟩
  · by_contra hlt
    obtain ⟨q, hq, hov, -⟩ := h.exists_of_touches hs hi (by dsimp only at hlt; omega)
    exact hnone q hq hov
  · simp only [iff_self_or]
    rintro ⟨q, hq, hov, -⟩
    exact absurd hov (hnone q hq)
  · refine List.pairwise_append.2 ⟨h.ascending, List.pairwise_singleton .., fun q hq q' hq' => ?_⟩
    rw [List.mem_singleton.1 hq']
    exact (h.isFirst hq).1

/-- What a set overlaps is the first of them or comes after it. -/
theorem eq_or_mem_rest_of_overlaps {before rest : List (Nat × EdgeSet)} {q : Nat × EdgeSet}
    (hbefore : ∀ q ∈ before, ¬ EdgeSet.overlaps s q.2 = true) (hq : q ∈ before ++ p :: rest)
    (hov : EdgeSet.overlaps s q.2 = true) : q = p ∨ q ∈ rest := by
  rcases List.mem_append.1 hq with hq | hq
  · exact absurd hov (hbefore q hq)
  · exact List.mem_cons.1 hq

/-- What is left when the sets that overlap give way to one. -/
theorem mem_merged_iff {before rest : List (Nat × EdgeSet)} {q q' : Nat × EdgeSet}
    (hbefore : ∀ q ∈ before, ¬ EdgeSet.overlaps s q.2 = true)
    (hp : EdgeSet.overlaps s p.2 = true) :
    q ∈ before ++ q' :: rest.filter (fun q => !EdgeSet.overlaps s q.2) ↔
      q ∈ before ++ p :: rest ∧ ¬ EdgeSet.overlaps s q.2 = true ∨ q = q' := by
  simp only [List.mem_append, List.mem_cons, List.mem_filter, Bool.not_eq_true', Bool.not_eq_true]
  constructor
  · rintro (hq | rfl | ⟨hq, hov⟩)
    · exact Or.inl ⟨Or.inl hq, by simpa using hbefore q hq⟩
    · exact Or.inr rfl
    · exact Or.inl ⟨Or.inr (Or.inr hq), hov⟩
  · rintro (⟨hq | rfl | hq, hov⟩ | rfl)
    · exact Or.inl hq
    · rw [hp] at hov
      cases hov
    · exact Or.inr (Or.inr ⟨hq, hov⟩)
    · exact Or.inr (Or.inl rfl)

/-- Merging a set that overlaps some: they are merged into the first of them. -/
theorem Merged.mergeSet_of_overlaps {before rest : List (Nat × EdgeSet)}
    (h : Merged cs (before ++ p :: rest)) (hs : ∀ e, e ∈ s ↔ e ∈ c)
    (hbefore : ∀ q ∈ before, ¬ EdgeSet.overlaps s q.2 = true)
    (hp : EdgeSet.overlaps s p.2 = true) (ht : ∀ e, e ∈ t ↔ e ∈ p.2 ∨ e ∈ s ∨
      ∃ q ∈ rest, EdgeSet.overlaps s q.2 = true ∧ e ∈ q.2) :
    Merged (cs ++ [c])
      (before ++ (p.1, t) :: rest.filter fun q => !EdgeSet.overlaps s q.2) := by
  have hasc := h.ascending
  rw [List.pairwise_append, List.pairwise_cons] at hasc
  obtain ⟨hascb, ⟨hpr, hascr⟩, hbr⟩ := hasc
  have hpmem : p ∈ before ++ p :: rest := by simp
  have hfirst : ∀ q ∈ before ++ p :: rest, EdgeSet.overlaps s q.2 = true → p.1 ≤ q.1 := by
    intro q hq hov
    rcases eq_or_mem_rest_of_overlaps hbefore hq hov with rfl | hq
    · exact Nat.le_refl _
    · exact (hpr q hq).le
  refine h.step hs (p := (p.1, t)) (fun q => mem_merged_iff hbefore hp)
    ((h.touches_iff hpmem hs).2 hp) (fun i hi => ?_) (fun e => ?_) ?_
  · -- whatever is touched is connected to a set that stands no earlier than the first overlapping
    by_cases hne : i = cs.length
    · rw [hne]
      exact (h.isFirst hpmem).1.le
    · obtain ⟨q, hq, hov, hqi⟩ := h.exists_of_touches hs hi hne
      exact Nat.le_trans (hfirst q hq hov) ((h.isFirst hq).2 i hqi)
  · dsimp only
    rw [ht]
    constructor
    · rintro (he | he | ⟨q, hq, hov, he⟩)
      · exact Or.inr ⟨p, hpmem, hp, he⟩
      · exact Or.inl he
      · exact Or.inr ⟨q, by simp [hq], hov, he⟩
    · rintro (he | ⟨q, hq, hov, he⟩)
      · exact Or.inr (Or.inl he)
      · rcases eq_or_mem_rest_of_overlaps hbefore hq hov with rfl | hq
        · exact Or.inl he
        · exact Or.inr (Or.inr ⟨q, hq, hov, he⟩)
  · refine List.pairwise_append.2 ⟨hascb, List.pairwise_cons.2 ⟨fun q hq => ?_, ?_⟩, ?_⟩
    · exact hpr q (List.mem_of_mem_filter hq)
    · exact hascr.filter _
    · intro q hq q' hq'
      rcases List.mem_cons.1 hq' with rfl | hq'
      · exact hbr q hq p (by simp)
      · exact hbr q hq q' (by simp [List.mem_of_mem_filter hq'])

/-- The step: merging one more set. -/
theorem Merged.mergeSet (h : Merged cs parts) (hs : ∀ e, e ∈ s ↔ e ∈ c) :
    ∃ parts', parts'.map Prod.snd = TrackPlan.mergeSet (parts.map Prod.snd) s ∧
      Merged (cs ++ [c]) parts' := by
  cases hfind : parts.find? fun p => EdgeSet.overlaps s p.2 with
  | none =>
    have hnone : ∀ p ∈ parts, ¬ EdgeSet.overlaps s p.2 = true := by
      simpa [List.find?_eq_none] using hfind
    refine ⟨_, ?_, h.mergeSet_of_not_overlaps hs hnone⟩
    rw [TrackPlan.mergeSet_of_not_overlaps (List.forall_mem_map.2 hnone), List.map_append]
    rfl
  | some p =>
    obtain ⟨hp, before, rest, rfl, hbefore⟩ := List.find?_eq_some_iff_append.1 hfind
    have hbefore : ∀ q ∈ before, ¬ EdgeSet.overlaps s q.2 = true := by simpa using hbefore
    refine ⟨_, ?_, h.mergeSet_of_overlaps hs hbefore hp (t :=
      ((rest.map Prod.snd).filter (EdgeSet.overlaps s)).foldl EdgeSet.union
        (EdgeSet.union p.2 s)) fun e => ?_⟩
    · rw [List.map_append, List.map_append, List.map_cons, List.map_cons,
        TrackPlan.mergeSet_of_overlaps (List.forall_mem_map.2 hbefore) hp,
        List.filter_map, List.filter_map]
      rfl
    · rw [mem_foldl_union, EdgeSet.mem_union, or_assoc]
      refine or_congr_right (or_congr_right ?_)
      simp only [List.mem_filter, List.mem_map]
      constructor
      · intro hx
        obtain ⟨_, ⟨⟨q, hq, rfl⟩, hov⟩, he⟩ := hx
        exact ⟨q, hq, hov, he⟩
      · intro hx
        obtain ⟨q, hq, hov, he⟩ := hx
        exact ⟨q.2, ⟨⟨q, hq, rfl⟩, hov⟩, he⟩

/-- The run: merging sets one after the other. -/
theorem Merged.foldl (h : Merged cs parts) {ds : List (Set Nat)}
    (hs : List.Forall₂ (fun (s : EdgeSet) (c : Set Nat) => ∀ e, e ∈ s ↔ e ∈ c) sets ds) :
    ∃ parts', parts'.map Prod.snd = sets.foldl TrackPlan.mergeSet (parts.map Prod.snd) ∧
      Merged (cs ++ ds) parts' := by
  induction hs generalizing cs parts with
  | nil => exact ⟨parts, rfl, by rwa [List.append_nil]⟩
  | cons hs _ ih =>
    obtain ⟨parts₁, heq, h₁⟩ := h.mergeSet hs
    obtain ⟨parts', heq', h'⟩ := ih h₁
    refine ⟨parts', ?_, by rwa [List.append_assoc] at h'⟩
    rw [heq', heq, List.foldl_cons]

end TrackPlan
