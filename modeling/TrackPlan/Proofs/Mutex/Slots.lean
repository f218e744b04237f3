import Mathlib.Data.List.Sort
import TrackPlan.Mutex.Table
import TrackPlan.Proofs.Mutex.Merging
import TrackPlan.Proofs.Outcome

/-!
# Slots hold the merged sets

The owners of edges tell which sets a new one overlaps, and empty slots keep the others where they
are: this is bookkeeping. Without it, sets are merged by `mergeSet`, in a list that has no gaps.

1. `Owned` is the invariant: an edge has the slot that holds it as its owner, and no other.
2. `overlapping_eq` says what it is for: the owners lead to the sets that overlap the new one.
   `place_cases` then reads one step as a change of the list of sets.
3. `Owned.place` and `live_place` are the step, and `Simulates.mutexSlots` is the run: what is left
   in slots, and how many sets are merged each time, is as `mergeSet` has it.
-/

namespace TrackPlan

namespace MutexSlots

variable {m m' : MutexSlots} {p : EdgeSet → Bool} {s t merged : EdgeSet}
  {sets before rest : List EdgeSet} {e i k slot target : Nat}

/-- An edge is owned by the slot that holds it. -/
def Owned (m : MutexSlots) : Prop :=
  ∀ e i, m.owner.lookup e = some i ↔ ∃ s, m.sets[i]? = some s ∧ e ∈ s

theorem owned_empty : Owned {} := by
  intro e i
  simp

theorem lookup_own (owner : List (Nat × Nat)) (slot : Nat) (s : EdgeSet) (e : Nat) :
    (own owner slot s).lookup e = if e ∈ s then some slot else owner.lookup e := by
  unfold own
  induction s generalizing owner with
  | nil => simp
  | cons edge rest ih =>
    rw [List.foldl_cons, ih, List.lookup_cons]
    by_cases hr : e ∈ rest
    · simp [hr]
    · by_cases he : e = edge
      · simp [he]
      · simp [hr, he, beq_false_of_ne he]

/-! ## Which slots are merged -/

/-- The slots of the sets with a property, if the first set has slot `k`. -/
def slotsWhere (p : EdgeSet → Bool) (sets : List EdgeSet) (k : Nat) : List Nat :=
  ((sets.zipIdx k).filter fun x => p x.1).map Prod.snd

theorem mem_slotsWhere : i ∈ slotsWhere p sets 0 ↔ ∃ s, sets[i]? = some s ∧ p s = true := by
  simp [slotsWhere, List.mem_zipIdx_iff_getElem?]

theorem pairwise_slotsWhere (p : EdgeSet → Bool) (sets : List EdgeSet) (k : Nat) :
    (slotsWhere p sets k).Pairwise (· < ·) := by
  have hslots : (slotsWhere p sets k).Sublist ((sets.zipIdx k).map Prod.snd) :=
    List.filter_sublist.map Prod.snd
  rw [List.zipIdx_map_snd] at hslots
  exact List.Pairwise.sublist hslots List.pairwise_lt_range'

theorem slotsWhere_cons : slotsWhere p (s :: sets) k =
    if p s = true then k :: slotsWhere p sets (k + 1) else slotsWhere p sets (k + 1) := by
  unfold slotsWhere
  rw [List.zipIdx_cons, List.filter_cons]
  split <;> rfl

theorem slotsWhere_of_none (h : ∀ s ∈ sets, ¬ p s = true) : slotsWhere p sets k = [] := by
  induction sets generalizing k with
  | nil => rfl
  | cons s rest ih =>
    obtain ⟨hs, hrest⟩ := List.forall_mem_cons.1 h
    rw [slotsWhere_cons, if_neg hs, ih hrest]

theorem slotsWhere_append_cons (h : ∀ s ∈ before, ¬ p s = true) (ht : p t = true) :
    slotsWhere p (before ++ t :: rest) k =
      (k + before.length) :: slotsWhere p rest (k + before.length + 1) := by
  induction before generalizing k with
  | nil => rw [List.nil_append, slotsWhere_cons, if_pos ht]; rfl
  | cons s before ih =>
    obtain ⟨hs, hbefore⟩ := List.forall_mem_cons.1 h
    have hlength : k + 1 + before.length = k + (before.length + 1) := by omega
    rw [List.cons_append, slotsWhere_cons, if_neg hs, ih hbefore, List.length_cons, hlength]

/-- The owners lead to the sets that overlap the new one. -/
theorem Owned.overlapping_eq (h : m.Owned) (s : EdgeSet) :
    m.overlapping s = slotsWhere (EdgeSet.overlaps s) m.sets 0 := by
  refine List.Pairwise.eq_of_mem_iff (EdgeSet.pairwise_ofList _) (pairwise_slotsWhere _ _ _)
    fun i => ?_
  rw [overlapping, EdgeSet.mem_ofList, List.mem_filterMap, mem_slotsWhere]
  simp only [h _ i, EdgeSet.overlaps_iff]
  constructor
  · rintro ⟨e, he, t, ht, het⟩
    exact ⟨t, ht, e, he, het⟩
  · rintro ⟨t, ht, e, he, het⟩
    exact ⟨e, he, t, ht, het⟩

/-! ## One more set -/

/-- What is left of a set when those with a property have been merged. -/
def leave (p : EdgeSet → Bool) (s : EdgeSet) : EdgeSet := if p s then [] else s

theorem setAt_append_cons : setAt (before ++ s :: rest) before.length = s := by
  simp [setAt]

theorem absorb_slotsWhere (before rest : List EdgeSet) (merged : EdgeSet) :
    absorb (before ++ rest) merged (slotsWhere p rest before.length) =
      ((rest.filter p).foldl EdgeSet.union merged, before ++ rest.map (leave p)) := by
  induction rest generalizing before merged with
  | nil => rfl
  | cons s rest ih =>
    have hnext := ih (before ++ [leave p s])
    rw [List.length_append, List.length_singleton, List.append_assoc, List.append_assoc] at hnext
    rw [slotsWhere_cons, List.map_cons]
    by_cases hs : p s = true
    · have hleave : leave p s = [] := if_pos hs
      rw [hleave] at hnext ⊢
      rw [if_pos hs, absorb, setAt_append_cons, List.set_append_right _ _ (Nat.le_refl _),
        Nat.sub_self, List.set_cons_zero, List.filter_cons_of_pos hs, List.foldl_cons]
      exact hnext _
    · have hleave : leave p s = s := if_neg hs
      rw [hleave] at hnext ⊢
      rw [if_neg hs, List.filter_cons_of_neg hs]
      exact hnext _

theorem Owned.place_of_not_overlaps (h : m.Owned)
    (hnone : ∀ t ∈ m.sets, ¬ EdgeSet.overlaps s t = true) :
    m.place s = ⟨m.sets ++ [s], own m.owner m.sets.length s⟩ := by
  unfold place
  rw [h.overlapping_eq, slotsWhere_of_none hnone]

/-- The union of a set, the one that comes next and all others that this one overlaps. -/
def unite (s t : EdgeSet) (rest : List EdgeSet) : EdgeSet :=
  (rest.filter (EdgeSet.overlaps s)).foldl EdgeSet.union (EdgeSet.union t s)

theorem mem_unite : e ∈ unite s t rest ↔
    (e ∈ t ∨ e ∈ s) ∨ ∃ u ∈ rest, EdgeSet.overlaps s u = true ∧ e ∈ u := by
  simp [unite, mem_foldl_union, EdgeSet.mem_union, and_assoc]

theorem Owned.place_of_overlaps (h : m.Owned) (hsets : m.sets = before ++ t :: rest)
    (hbefore : ∀ u ∈ before, ¬ EdgeSet.overlaps s u = true) (ht : EdgeSet.overlaps s t = true) :
    m.place s = ⟨before ++ unite s t rest :: rest.map (leave (EdgeSet.overlaps s)),
      own m.owner before.length (unite s t rest)⟩ := by
  have habsorb := absorb_slotsWhere (p := EdgeSet.overlaps s) (before ++ [[]]) rest
    (EdgeSet.union t s)
  rw [List.length_append, List.length_singleton, List.append_assoc, List.append_assoc] at habsorb
  unfold place
  rw [h.overlapping_eq, hsets, slotsWhere_append_cons hbefore ht, Nat.zero_add]
  dsimp only
  rw [setAt_append_cons, List.set_append_right _ _ (Nat.le_refl _), Nat.sub_self,
    List.set_cons_zero, ← List.singleton_append, habsorb]
  dsimp only
  rw [List.set_append_right _ _ (Nat.le_refl _), Nat.sub_self]
  rfl

/-- What one more set does: it comes last, or the sets that it overlaps go into one. -/
theorem Owned.place_cases (h : m.Owned) (s : EdgeSet) :
    ((∀ t ∈ m.sets, ¬ EdgeSet.overlaps s t = true) ∧
      m.place s = ⟨m.sets ++ [s], own m.owner m.sets.length s⟩) ∨
    ∃ before t rest, m.sets = before ++ t :: rest ∧
      (∀ u ∈ before, ¬ EdgeSet.overlaps s u = true) ∧ EdgeSet.overlaps s t = true ∧
      m.place s = ⟨before ++ unite s t rest :: rest.map (leave (EdgeSet.overlaps s)),
        own m.owner before.length (unite s t rest)⟩ := by
  cases hfind : m.sets.find? (EdgeSet.overlaps s) with
  | none =>
    rw [List.find?_eq_none] at hfind
    exact Or.inl ⟨hfind, h.place_of_not_overlaps hfind⟩
  | some t =>
    obtain ⟨ht, before, rest, hsets, hbefore⟩ := List.find?_eq_some_iff_append.1 hfind
    have hbefore : ∀ u ∈ before, ¬ EdgeSet.overlaps s u = true := by simpa using hbefore
    exact Or.inr ⟨before, t, rest, hsets, hbefore, ht, h.place_of_overlaps hsets hbefore ht⟩

/-- Owners stay right when all sets that a new one overlaps go into one slot with it. -/
theorem Owned.of_moved (h : m.Owned)
    (howner : ∀ e, m'.owner.lookup e = if e ∈ merged then some target else m.owner.lookup e)
    (hmerged : ∀ e, e ∈ merged ↔ e ∈ s ∨ ∃ u ∈ m.sets, EdgeSet.overlaps s u = true ∧ e ∈ u)
    (htarget : m'.sets[target]? = some merged)
    (hold : ∀ u, m.sets[target]? = some u → EdgeSet.overlaps s u = true)
    (hothers : ∀ i, i ≠ target →
      m'.sets[i]? = m.sets[i]?.map (leave (EdgeSet.overlaps s))) : m'.Owned := by
  have hleft : ∀ {e i u}, i ≠ target → m'.sets[i]? = some u → e ∈ u →
      m.sets[i]? = some u ∧ ¬ EdgeSet.overlaps s u = true := by
    intro e i u hi hu he
    rw [hothers i hi, Option.map_eq_some_iff] at hu
    obtain ⟨u', hu', rfl⟩ := hu
    unfold leave at he ⊢
    split at he
    · exact absurd he List.not_mem_nil
    · next hov => rw [if_neg hov]; exact ⟨hu', hov⟩
  intro e i
  rw [howner]
  by_cases he : e ∈ merged
  · rw [if_pos he, Option.some.injEq]
    constructor
    · rintro rfl
      exact ⟨merged, htarget, he⟩
    · rintro ⟨u, hu, heu⟩
      by_contra hne
      obtain ⟨hu, hov⟩ := hleft (Ne.symm hne) hu heu
      rcases (hmerged e).1 he with hes | ⟨u', hu', hov', heu'⟩
      · exact hov (EdgeSet.overlaps_iff.2 ⟨e, hes, heu⟩)
      · -- the edge would have two owners
        obtain ⟨j, hj⟩ := List.getElem?_of_mem hu'
        have hij := (h e i).2 ⟨u, hu, heu⟩
        rw [(h e j).2 ⟨u', hj, heu'⟩, Option.some.injEq] at hij
        rw [← hij, hj, Option.some.injEq] at hu
        exact hov (hu ▸ hov')
  · rw [if_neg he, h e i]
    constructor
    · rintro ⟨u, hu, heu⟩
      have hov : ¬ EdgeSet.overlaps s u = true := fun hov =>
        he ((hmerged e).2 (Or.inr ⟨u, List.mem_of_getElem? hu, hov, heu⟩))
      have hi : i ≠ target := by
        rintro rfl
        exact hov (hold u hu)
      refine ⟨u, ?_, heu⟩
      rw [hothers i hi, hu, Option.map_some, leave, if_neg hov]
    · rintro ⟨u, hu, heu⟩
      by_cases hi : i = target
      · rw [hi, htarget, Option.some.injEq] at hu
        exact absurd (hu ▸ heu) he
      · exact ⟨u, (hleft hi hu heu).1, heu⟩

/-- The step: owners and slots agree with one more set. -/
theorem Owned.place (h : m.Owned) (s : EdgeSet) : (m.place s).Owned := by
  rcases h.place_cases s with ⟨hnone, hplace⟩ | ⟨before, t, rest, hsets, hbefore, ht, hplace⟩
  · rw [hplace]
    refine h.of_moved (s := s) (lookup_own m.owner m.sets.length s) (fun e => ?_)
      List.getElem?_concat_length (fun u hu => ?_) fun i hi => ?_
    · refine (or_iff_left ?_).symm
      rintro ⟨u, hu, hov, -⟩
      exact hnone u hu hov
    · rw [List.getElem?_eq_none (Nat.le_refl _)] at hu
      cases hu
    · dsimp only
      rcases Nat.lt_or_gt_of_ne hi with hlt | hgt
      · rw [List.getElem?_append_left hlt, List.getElem?_eq_getElem hlt, Option.map_some, leave,
          if_neg (hnone _ (List.getElem_mem hlt))]
      · rw [List.getElem?_eq_none (by rwa [List.length_append, List.length_singleton]),
          List.getElem?_eq_none (Nat.le_of_lt hgt)]
        rfl
  · rw [hplace]
    refine h.of_moved (s := s) (lookup_own m.owner before.length (unite s t rest)) (fun e => ?_)
      ?_ (fun u hu => ?_) fun i hi => ?_
    · rw [mem_unite, hsets]
      simp only [List.mem_append, List.mem_cons]
      constructor
      · rintro ((he | he) | ⟨u, hu, hov, he⟩)
        · exact Or.inr ⟨t, Or.inr (Or.inl rfl), ht, he⟩
        · exact Or.inl he
        · exact Or.inr ⟨u, Or.inr (Or.inr hu), hov, he⟩
      · rintro (he | ⟨u, hu | rfl | hu, hov, he⟩)
        · exact Or.inl (Or.inr he)
        · exact absurd hov (hbefore u hu)
        · exact Or.inl (Or.inl he)
        · exact Or.inr ⟨u, hu, hov, he⟩
    · simp
    · rw [hsets, List.getElem?_append_right (Nat.le_refl _), Nat.sub_self,
        List.getElem?_cons_zero, Option.some.injEq] at hu
      exact hu ▸ ht
    · dsimp only
      rw [hsets]
      rcases Nat.lt_or_gt_of_ne hi with hlt | hgt
      · rw [List.getElem?_append_left hlt, List.getElem?_append_left hlt,
          List.getElem?_eq_getElem hlt, Option.map_some, leave,
          if_neg (hbefore _ (List.getElem_mem hlt))]
      · obtain ⟨j, rfl⟩ := Nat.exists_eq_add_of_lt hgt
        rw [List.getElem?_append_right (by omega), List.getElem?_append_right (by omega)]
        have hj : before.length + j + 1 - before.length = j + 1 := by omega
        rw [hj, List.getElem?_cons_succ, List.getElem?_cons_succ, List.getElem?_map]

/-! ## What is left in slots -/

/-- Sets that overlap another are not empty. -/
theorem filter_nonempty_overlaps (s : EdgeSet) (sets : List EdgeSet) :
    (sets.filter (!·.isEmpty)).filter (EdgeSet.overlaps s) =
      sets.filter (EdgeSet.overlaps s) := by
  rw [List.filter_filter]
  refine List.filter_congr fun t _ => ?_
  cases t with
  | nil => simp [EdgeSet.overlaps]
  | cons e t => simp

theorem countP_filter_nonempty (s : EdgeSet) (sets : List EdgeSet) :
    (sets.filter (!·.isEmpty)).countP (EdgeSet.overlaps s) =
      sets.countP (EdgeSet.overlaps s) := by
  rw [List.countP_eq_length_filter, List.countP_eq_length_filter, filter_nonempty_overlaps]

/-- Empty sets overlap nothing, so they may be left out before or after a merge. -/
theorem filter_mergeSet (sets : List EdgeSet) (s : EdgeSet) :
    (mergeSet (sets.filter (!·.isEmpty)) s).filter (!·.isEmpty) =
      (mergeSet sets s).filter (!·.isEmpty) := by
  induction sets with
  | nil => rfl
  | cons t rest ih =>
    cases t with
    | nil =>
      have hnil : ¬ EdgeSet.overlaps s [] = true := by simp [EdgeSet.overlaps]
      rw [List.filter_cons_of_neg (by simp), ih, mergeSet, if_neg hnil,
        List.filter_cons_of_neg (by simp)]
    | cons e t =>
      rw [List.filter_cons_of_pos (by simp), mergeSet, mergeSet]
      split
      · have hkept : ((rest.filter (!·.isEmpty)).filter fun u => !EdgeSet.overlaps s u).filter
            (!·.isEmpty) = (rest.filter fun u => !EdgeSet.overlaps s u).filter (!·.isEmpty) := by
          rw [List.filter_filter, List.filter_filter, List.filter_filter]
          refine List.filter_congr fun u _ => ?_
          cases u.isEmpty <;> simp
        rw [filter_nonempty_overlaps, List.filter_cons, List.filter_cons, hkept]
      · rw [List.filter_cons_of_pos (by simp), List.filter_cons_of_pos (by simp), ih]

theorem filter_map_leave (s : EdgeSet) (sets : List EdgeSet) :
    (sets.map (leave (EdgeSet.overlaps s))).filter (!·.isEmpty) =
      (sets.filter fun u => !EdgeSet.overlaps s u).filter (!·.isEmpty) := by
  induction sets with
  | nil => rfl
  | cons u rest ih =>
    rw [List.map_cons]
    by_cases hov : EdgeSet.overlaps s u = true
    · rw [leave, if_pos hov, List.filter_cons_of_neg (by simp), ih,
        List.filter_cons_of_neg (by simpa using hov)]
    · rw [leave, if_neg hov, List.filter_cons_of_pos (p := fun u => !EdgeSet.overlaps s u)
        (by simpa using hov)]
      simp only [List.filter_cons, ih]

/-- The step does to the sets in slots what `mergeSet` does. -/
theorem Owned.live_place (h : m.Owned) (s : EdgeSet) :
    (m.place s).live = (mergeSet m.sets s).filter (!·.isEmpty) := by
  rcases h.place_cases s with ⟨hnone, hplace⟩ | ⟨before, t, rest, hsets, hbefore, ht, hplace⟩
  · rw [hplace, mergeSet_of_not_overlaps hnone]
    rfl
  · rw [hplace, hsets, mergeSet_of_overlaps hbefore ht, live, List.filter_append,
      List.filter_append]
    rw [List.filter_cons, List.filter_cons, filter_map_leave]
    rfl

/-! ## The run -/

/-- Owners and slots agree, and the slots hold the listed sets. -/
structure Simulates (m : MutexSlots) (sets : List EdgeSet) : Prop where
  owned : m.Owned
  live_eq : m.live = sets.filter (!·.isEmpty)

theorem simulates_empty : Simulates {} [] := ⟨owned_empty, rfl⟩

/-- As many sets are merged. -/
theorem Simulates.length_overlapping (h : m.Simulates sets) (s : EdgeSet) :
    (m.overlapping s).length = sets.countP (EdgeSet.overlaps s) := by
  rw [h.owned.overlapping_eq, ← countP_filter_nonempty, ← h.live_eq, live, countP_filter_nonempty,
    slotsWhere, List.length_map, ← List.countP_eq_length_filter]
  conv_rhs => rw [← List.zipIdx_map_fst 0 m.sets, List.countP_map]
  rfl

theorem Simulates.place (h : m.Simulates sets) (s : EdgeSet) :
    (m.place s).Simulates (mergeSet sets s) where
  owned := h.owned.place s
  live_eq := by
    rw [h.owned.live_place, ← filter_mergeSet, ← filter_mergeSet sets]
    exact congrArg (fun sets => (mergeSet sets s).filter (!·.isEmpty)) h.live_eq

end MutexSlots

/-- The merged closed sets of mutex records, in the order of the first record of each. -/
def Graph.mutexSets (g : Graph) : List EdgeSet → List MutexDecl → Report (List EdgeSet)
  | earlier, [] => pure earlier
  | earlier, d :: rest => do
    let s := g.close (← Report.ofExcept (g.mutexSeed d))
    Report.warn (overlapWarnings d.line (earlier.countP (EdgeSet.overlaps s)))
    g.mutexSets (mergeSet earlier s) rest

/-- The run: the same errors, warnings and sets, whether sets are merged in slots or in a list. -/
theorem MutexSlots.Simulates.mutexSlots {m : MutexSlots} {sets : List EdgeSet}
    (h : m.Simulates sets) (g : Graph) (decls : List MutexDecl) :
    MutexSlots.live <$> g.mutexSlots m decls =
      List.filter (!·.isEmpty) <$> g.mutexSets sets decls := by
  induction decls generalizing m sets with
  | nil => exact congrArg pure h.live_eq
  | cons d rest ih =>
    unfold Graph.mutexSlots Graph.mutexSets
    rw [map_bind, map_bind]
    congr 1
    funext seed
    rw [map_bind, map_bind, h.length_overlapping]
    congr 1
    funext _
    exact ih (h.place (g.close seed))

/-- The table is that of the sets merged in a list. -/
theorem MutexTable.build_eq (g : Graph) (decls : List MutexDecl) : build g decls =
    (fun sets => ofSets g.edgeCount (sets.filter (!·.isEmpty))) <$> g.mutexSets [] decls := by
  have hrun := MutexSlots.simulates_empty.mutexSlots g decls
  have htable := congrArg (fun x : Report (List EdgeSet) => ofSets g.edgeCount <$> x) hrun
  rw [Functor.map_map, Functor.map_map] at htable
  exact htable

end TrackPlan
