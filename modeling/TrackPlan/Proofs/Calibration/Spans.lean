import Mathlib.Algebra.Order.BigOperators.Group.List
import Mathlib.Algebra.Order.Ring.Nat
import TrackPlan.Proofs.Calibration.Rotation

/-!
# What a calibration loop tells

A lap is walked from its first node on, but a loop has no first node. What is told of it is told
here in terms of places, counted around the loop (`Calibration.Measures`).

1. `measureLap_fst` says what stands at a sensor: what has been travelled on the part of the lap
   before it. `exists_span` turns this into the stretch from the sensor before, on the way around.
2. `map_node_branchesOf` and `lastTurn_of_mem_branchesOf` say which branches are listed, and what
   for: both go along the lap, one more step at its end.
3. `measureLap_total` is the conservation law: what is travelled is counted for a sensor, or left at
   the end.
-/

namespace TrackPlan.Calibration

variable {g : Graph} {lap front between : List (Nat × Nat)} {steps : List LoopStep} {l : Loop}
  {a : Nat × Nat} {span i : Nat}

/-! ## What has to be told -/

/-- The edges from the last sensor before a place up to this place, on the way around, add up to
`d`. There is a whole lap between them if the loop has one sensor. -/
def IsSpan (g : Graph) (l : Loop) (i d : Nat) : Prop :=
  ∃ p k : Nat, p < l.nodes.length ∧ 0 < k ∧ k ≤ l.nodes.length ∧ (p + k) % l.nodes.length = i ∧
    (∃ first between, (l.nodes.rotate p).take k = first :: between ∧ g.isSensor first = true ∧
      ∀ j ∈ between, ¬ g.isSensor j = true) ∧
    d = (((l.edges.rotate p).take k).map g.edgeLength).sum

/-- The way that the loop takes where it passes a node for the last time. -/
def LastTurn (g : Graph) (l : Loop) (node : Nat) (curved : Bool) : Prop :=
  ∃ (i k : Nat) (e : Edge), l.nodes[i]? = some node ∧ (∀ j, i < j → l.nodes[j]? ≠ some node) ∧
    l.edges[i]? = some k ∧ g.edge? k = some e ∧ (curved = true ↔ e.slot = 1)

/-- What the loop of some steps has to tell. -/
structure Measures (g : Graph) (steps : List LoopStep) (l : Loop) : Prop where
  /-- A last step that repeats the first one is not counted. -/
  nodes : (openRound (steps.map LoopStep.node)).map g.nodeId? = l.nodes.map some
  edges : List.Forall₂ (fun p k => ∃ e, g.edge? k = some e ∧ e.src = p.1 ∧ e.dest = p.2)
    (l.nodes.zip (l.nodes.rotate 1)) l.edges
  /-- There is one entry for each place with a sensor. -/
  sensors : List.Forall₂ (fun p s => s.node = p.1 ∧ IsSpan g l p.2 s.distance)
    (l.nodes.zipIdx.filter (g.isSensor ·.1)) l.sensors
  /-- There is one entry for each branch. -/
  branches : l.branches.map LoopBranch.node = (l.nodes.filter g.isBranch).eraseDups
  turns : ∀ b ∈ l.branches, LastTurn g l b.node b.curved
  sum_eq : (l.sensors.map LoopSensor.distance).sum = l.totalDistance g
  totalDistance_lt : l.totalDistance g < UInt64.size

/-! ## Sensors -/

/-- What the edges of a part of a lap add up to. -/
def travelled (g : Graph) (lap : List (Nat × Nat)) : Nat := (lap.map fun p => g.edgeLength p.2).sum

theorem travelled_cons (a : Nat × Nat) (lap : List (Nat × Nat)) :
    travelled g (a :: lap) = g.edgeLength a.2 + travelled g lap := by
  simp [travelled]

theorem travelled_append (front back : List (Nat × Nat)) :
    travelled g (front ++ back) = travelled g front + travelled g back := by
  simp [travelled]

/-- What is travelled is counted for a sensor, or left at the end. -/
theorem measureLap_total (span : Nat) (lap : List (Nat × Nat)) :
    ((measureLap g span lap).1.map LoopSensor.distance).sum + (measureLap g span lap).2 =
      span + travelled g lap := by
  induction lap generalizing span with
  | nil => simp [measureLap, travelled]
  | cons a rest ih =>
    rw [travelled_cons]
    by_cases hs : g.isSensor a.1 = true
    · rw [measureLap_cons_of_isSensor hs, List.map_cons, List.sum_cons]
      have := ih (g.edgeLength a.2)
      dsimp only
      omega
    · rw [measureLap_cons_of_not_isSensor hs, ih]
      omega

/-- A lap without a sensor adds to the span. -/
theorem measureLap_of_forall_not (h : ∀ p ∈ lap, ¬ g.isSensor p.1 = true) :
    (measureLap g span lap).2 = span + travelled g lap := by
  induction lap generalizing span with
  | nil => rfl
  | cons a rest ih =>
    rw [List.forall_mem_cons] at h
    rw [measureLap_cons_of_not_isSensor h.1, ih h.2, travelled_cons, Nat.add_assoc]

/-- Behind its last sensor, nothing of what is before it counts. -/
theorem measureLap_of_last (ha : g.isSensor a.1 = true)
    (hb : ∀ p ∈ between, ¬ g.isSensor p.1 = true) :
    (measureLap g span (front ++ a :: between)).2 = travelled g (a :: between) := by
  rw [measureLap_append, measureLap_cons_of_isSensor ha]
  dsimp only
  rw [measureLap_of_forall_not hb, travelled_cons]

/-- At every sensor stands what is left after the part of the lap before it. -/
theorem measureLap_fst (span : Nat) (lap : List (Nat × Nat)) :
    (measureLap g span lap).1 = (lap.zipIdx.filter (g.isSensor ·.1.1)).map fun p =>
      ⟨p.1.1, (measureLap g span (lap.take p.2)).2⟩ := by
  induction lap using List.reverseRecOn with
  | nil => rfl
  | append_singleton front a ih =>
    have hfront : ∀ p ∈ front.zipIdx.filter (g.isSensor ·.1.1),
        (front ++ [a]).take p.2 = front.take p.2 := by
      intro p hp
      obtain ⟨-, hlt, -⟩ := List.mem_zipIdx (List.mem_filter.1 hp).1
      exact List.take_append_of_le_length (by omega)
    rw [measureLap_append, List.zipIdx_append, List.filter_append, List.map_append, ih]
    dsimp only
    congr 1
    · refine List.map_congr_left fun p hp => ?_
      rw [hfront p hp]
    · simp only [List.zipIdx_singleton, Nat.zero_add]
      by_cases hs : g.isSensor a.1 = true
      · rw [measureLap_cons_of_isSensor hs]
        simp [measureLap, hs]
      · rw [measureLap_cons_of_not_isSensor hs]
        simp [measureLap, hs]

/-- The last element of which something holds. -/
theorem exists_last {α : Type} {P : α → Prop} {l : List α} (h : ∃ x ∈ l, P x) :
    ∃ front a between, l = front ++ a :: between ∧ P a ∧ ∀ b ∈ between, ¬ P b := by
  induction l using List.reverseRecOn with
  | nil => simp at h
  | append_singleton rest x ih =>
    by_cases hx : P x
    · exact ⟨rest, x, [], rfl, hx, by simp⟩
    · have hrest : ∃ y ∈ rest, P y := by
        simpa [or_and_right, exists_or, hx] using h
      obtain ⟨front, a, between, rfl, ha, hb⟩ := ih hrest
      refine ⟨front, a, between ++ [x], by simp, ha, ?_⟩
      rw [List.forall_mem_append]
      exact ⟨hb, by simpa using hx⟩

/-- The part of a lap from a sensor up to a place, on the way around, with no other sensor on it. -/
def IsStretch (g : Graph) (lap : List (Nat × Nat)) (i : Nat) (first : Nat × Nat)
    (between : List (Nat × Nat)) : Prop :=
  ∃ p k, p < lap.length ∧ 0 < k ∧ k ≤ lap.length ∧ (p + k) % lap.length = i ∧
    (lap.rotate p).take k = first :: between ∧ g.isSensor first.1 = true ∧
      ∀ q ∈ between, ¬ g.isSensor q.1 = true

/-- The sensor before a place is met since the lap began. -/
theorem isStretch_ahead {back : List (Nat × Nat)} (hback : back ≠ []) (ha : g.isSensor a.1 = true)
    (hb : ∀ q ∈ between, ¬ g.isSensor q.1 = true) :
    IsStretch g (front ++ a :: between ++ back) (front ++ a :: between).length a between := by
  have hpos := List.length_pos_of_ne_nil hback
  have hturn : (front ++ a :: between ++ back).rotate front.length =
      a :: between ++ (back ++ front) := by
    rw [List.append_assoc, List.rotate_append_length_eq, List.append_assoc]
  refine ⟨front.length, (a :: between).length, ?_, by simp, ?_, ?_, ?_, ha, hb⟩
  · simp only [List.length_append, List.length_cons]
    omega
  · simp only [List.length_append]
    omega
  · rw [← List.length_append, Nat.mod_eq_of_lt]
    simp only [List.length_append, List.length_cons]
    omega
  · rw [hturn, List.take_left']
    rfl

/-- The sensor before a place lies behind it, and the way from there goes over the start of the
lap. -/
theorem isStretch_behind {ahead : List (Nat × Nat)} (ha : g.isSensor a.1 = true)
    (hb : ∀ q ∈ between, ¬ g.isSensor q.1 = true) (hno : ∀ q ∈ ahead, ¬ g.isSensor q.1 = true) :
    IsStretch g (ahead ++ (front ++ a :: between)) ahead.length a (between ++ ahead) := by
  have hturn : (ahead ++ (front ++ a :: between)).rotate (ahead ++ front).length =
      (a :: between ++ ahead) ++ front := by
    rw [← List.append_assoc, List.rotate_append_length_eq, List.append_assoc]
  refine ⟨(ahead ++ front).length, (a :: between ++ ahead).length, ?_, by simp, ?_, ?_, ?_, ha, ?_⟩
  · simp only [List.length_append, List.length_cons]
    omega
  · simp only [List.length_append]
    omega
  · have hround : (ahead ++ front).length + (a :: between ++ ahead).length =
        (ahead ++ (front ++ a :: between)).length + ahead.length := by
      simp only [List.length_append]
      omega
    rw [hround, Nat.add_mod_left, Nat.mod_eq_of_lt]
    simp only [List.length_append, List.length_cons]
    omega
  · rw [hturn, List.take_left']
    · rfl
    · rfl
  · rw [List.forall_mem_append]
    exact ⟨hb, hno⟩

/-- What is left after the part of a lap before a sensor, if it begins with what is left after the
whole lap, is what is travelled from the sensor before. -/
theorem exists_span (hi : lap[i]? = some a) (ha : g.isSensor a.1 = true) :
    ∃ first between, IsStretch g lap i first between ∧
      (measureLap g (measureLap g 0 lap).2 (lap.take i)).2 = travelled g (first :: between) := by
  obtain ⟨ahead, back, rfl, rfl⟩ : ∃ ahead back, lap = ahead ++ a :: back ∧ ahead.length = i := by
    obtain ⟨hlt, hget⟩ := List.getElem?_eq_some_iff.1 hi
    refine ⟨lap.take i, lap.drop (i + 1), ?_, List.length_take_of_le (Nat.le_of_lt hlt)⟩
    rw [← hget, ← List.drop_eq_getElem_cons hlt, List.take_append_drop]
  rw [List.take_left' rfl]
  by_cases hs : ∃ q ∈ ahead, g.isSensor q.1 = true
  · obtain ⟨front, first, between, rfl, hfirst, hb⟩ := exists_last hs
    exact ⟨first, between, isStretch_ahead (List.cons_ne_nil a back) hfirst hb,
      measureLap_of_last hfirst hb⟩
  · have hno : ∀ q ∈ ahead, ¬ g.isSensor q.1 = true := fun q hq hsensor => hs ⟨q, hq, hsensor⟩
    have hsome : ∃ q ∈ a :: back, g.isSensor q.1 = true := ⟨a, List.mem_cons_self, ha⟩
    obtain ⟨front, first, between, hback, hfirst, hb⟩ := exists_last hsome
    have hleft : (measureLap g 0 (ahead ++ a :: back)).2 = travelled g (first :: between) := by
      rw [hback, ← List.append_assoc]
      exact measureLap_of_last hfirst hb
    refine ⟨first, between ++ ahead, hback ▸ isStretch_behind hfirst hb hno, ?_⟩
    rw [measureLap_of_forall_not hno, hleft, ← List.cons_append, travelled_append]

/-- The sensors around a loop stand at their places, each with the span before it. -/
theorem forall₂_sensorsAround (hlen : l.edges.length = l.nodes.length) :
    List.Forall₂ (fun p s => s.node = p.1 ∧ IsSpan g l p.2 s.distance)
      (l.nodes.zipIdx.filter (g.isSensor ·.1)) (sensorsAround g (l.nodes.zip l.edges)) := by
  obtain ⟨lap, hlap⟩ : ∃ lap, lap = l.nodes.zip l.edges := ⟨_, rfl⟩
  have hnodes : l.nodes = lap.map Prod.fst := by rw [hlap, List.map_fst_zip (by omega)]
  have hedges : l.edges = lap.map Prod.snd := by rw [hlap, List.map_snd_zip (by omega)]
  rw [← hlap, sensorsAround, measureLap_fst, hnodes, List.zipIdx_map, List.filter_map,
    List.forall₂_map_left_iff, List.forall₂_map_right_iff]
  refine List.forall₂_same.2 fun q hq => ?_
  obtain ⟨hq, hs⟩ := List.mem_filter.1 hq
  have hplace : lap[q.2]? = some q.1 := List.mem_zipIdx_iff_getElem?.1 hq
  refine ⟨rfl, ?_⟩
  obtain ⟨first, between, ⟨p, k, hp, hk, hkn, hmod, htake, hfirst, hb⟩, hspan⟩ :=
    exists_span hplace hs
  have hcount : l.nodes.length = lap.length := by rw [hnodes, List.length_map]
  refine ⟨p, k, by omega, hk, by omega, by rwa [hcount], ⟨first.1, between.map Prod.fst, ?_, hfirst,
    ?_⟩, ?_⟩
  · rw [hnodes, ← List.map_rotate, ← List.map_take, htake, List.map_cons]
  · rw [List.forall_mem_map]
    exact hb
  · dsimp only
    rw [hspan, hedges, ← List.map_rotate, ← List.map_take, htake, List.map_map]
    rfl

/-- The spans of a loop add up to its length. -/
theorem sum_sensorsAround (h : ∃ p ∈ lap, g.isSensor p.1 = true) :
    ((sensorsAround g lap).map LoopSensor.distance).sum = travelled g lap := by
  have htotal := measureLap_total (g := g) (measureLap g 0 lap).2 lap
  rw [measureLap_snd_eq h (measureLap g 0 lap).2 0] at htotal
  unfold sensorsAround
  omega

/-! ## Branches -/

theorem map_node_noteBranch (node : Nat) (curved : Bool) (bs : List LoopBranch) :
    (noteBranch node curved bs).map LoopBranch.node =
      if node ∈ bs.map LoopBranch.node then bs.map LoopBranch.node
      else bs.map LoopBranch.node ++ [node] := by
  induction bs with
  | nil => rfl
  | cons b rest ih =>
    unfold noteBranch
    by_cases hb : b.node = node
    · rw [if_pos hb]
      simp [hb]
    · have hb' : ¬ node = b.node := fun h => hb h.symm
      rw [if_neg hb, List.map_cons, ih]
      simp only [List.map_cons, List.mem_cons, hb', false_or]
      split <;> rfl

/-- Where a branch is noted once at most, nothing else is left of it. -/
theorem eq_or_mem_of_mem_noteBranch {node : Nat} {curved : Bool} {b : LoopBranch}
    {bs : List LoopBranch} (hd : (bs.map LoopBranch.node).Nodup)
    (h : b ∈ noteBranch node curved bs) : b = ⟨node, curved⟩ ∨ b ∈ bs ∧ b.node ≠ node := by
  induction bs with
  | nil => exact Or.inl (List.mem_singleton.1 h)
  | cons c rest ih =>
    rw [List.map_cons, List.nodup_cons] at hd
    unfold noteBranch at h
    split at h
    · next hc =>
      rcases List.mem_cons.1 h with rfl | h
      · exact Or.inl rfl
      · refine Or.inr ⟨List.mem_cons_of_mem c h, fun hnode => hd.1 ?_⟩
        rw [hc, ← hnode]
        exact List.mem_map_of_mem h
    · next hc =>
      rcases List.mem_cons.1 h with rfl | h
      · exact Or.inr ⟨List.mem_cons_self, hc⟩
      · exact (ih hd.2 h).imp_right fun h => ⟨List.mem_cons_of_mem c h.1, h.2⟩

/-- The last step of a lap is noted last. -/
theorem branchesOf_concat {e : Edge} (he : g.edge? a.2 = some e) : branchesOf g (lap ++ [a]) =
    if g.isBranch a.1 then noteBranch a.1 e.isCurved (branchesOf g lap) else branchesOf g lap := by
  rw [branchesOf, List.foldl_concat]
  dsimp only
  rw [he]
  rfl

theorem eraseDups_concat (ns : List Nat) (n : Nat) : (ns ++ [n]).eraseDups =
    if n ∈ ns.eraseDups then ns.eraseDups else ns.eraseDups ++ [n] := by
  simp only [List.eraseDups_append, List.mem_eraseDups]
  split
  · next h => simp [List.removeAll, h]
  · next h => simp [List.removeAll, h, List.eraseDups_cons]

theorem map_node_branchesOf (h : ∀ p ∈ lap, ∃ e, g.edge? p.2 = some e) :
    (branchesOf g lap).map LoopBranch.node = ((lap.map Prod.fst).filter g.isBranch).eraseDups := by
  induction lap using List.reverseRecOn with
  | nil => rfl
  | append_singleton rest a ih =>
    rw [List.forall_mem_append] at h
    obtain ⟨e, he⟩ := h.2 a (List.mem_singleton_self a)
    rw [branchesOf_concat he, List.map_append, List.filter_append]
    by_cases hb : g.isBranch a.1 = true
    · rw [if_pos hb, map_node_noteBranch, ih h.1]
      simp only [List.map_cons, List.map_nil, List.filter_cons_of_pos hb, List.filter_nil]
      rw [eraseDups_concat]
    · rw [if_neg hb, ih h.1]
      simp only [List.map_cons, List.map_nil, List.filter_cons_of_neg hb, List.filter_nil,
        List.append_nil]

theorem nodup_branchesOf (h : ∀ p ∈ lap, ∃ e, g.edge? p.2 = some e) :
    ((branchesOf g lap).map LoopBranch.node).Nodup := by
  induction lap using List.reverseRecOn with
  | nil => exact List.nodup_nil
  | append_singleton rest a ih =>
    rw [List.forall_mem_append] at h
    obtain ⟨e, he⟩ := h.2 a (List.mem_singleton_self a)
    rw [branchesOf_concat he]
    split
    · rw [map_node_noteBranch]
      split
      · exact ih h.1
      · next hnew =>
        rw [← List.concat_eq_append]
        exact (ih h.1).concat hnew
    · exact ih h.1

/-- A branch is listed with the way that is taken where it is passed last. -/
theorem last_of_mem_branchesOf (h : ∀ p ∈ lap, ∃ e, g.edge? p.2 = some e) {b : LoopBranch}
    (hb : b ∈ branchesOf g lap) : ∃ front k back e, lap = front ++ (b.node, k) :: back ∧
      (∀ p ∈ back, p.1 ≠ b.node) ∧ g.edge? k = some e ∧ (b.curved = true ↔ e.slot = 1) := by
  induction lap using List.reverseRecOn with
  | nil => cases hb
  | append_singleton rest a ih =>
    rw [List.forall_mem_append] at h
    obtain ⟨e, he⟩ := h.2 a (List.mem_singleton_self a)
    rw [branchesOf_concat he] at hb
    have hlater (hb : b ∈ branchesOf g rest) (hne : a.1 ≠ b.node) : ∃ front k back e,
        rest ++ [a] = front ++ (b.node, k) :: back ∧ (∀ p ∈ back, p.1 ≠ b.node) ∧
          g.edge? k = some e ∧ (b.curved = true ↔ e.slot = 1) := by
      obtain ⟨front, k, back, f, rfl, hback, hf, hslot⟩ := ih h.1 hb
      refine ⟨front, k, back ++ [a], f, by simp, ?_, hf, hslot⟩
      rw [List.forall_mem_append]
      exact ⟨hback, by simpa using hne⟩
    split at hb
    · rcases eq_or_mem_of_mem_noteBranch (nodup_branchesOf h.1) hb with rfl | ⟨hb, hne⟩
      · exact ⟨rest, a.2, [], e, rfl, by simp, he, by simp [Edge.isCurved]⟩
      · exact hlater hb hne.symm
    · next hbranch =>
      refine hlater hb fun heq => hbranch ?_
      have hlisted : b.node ∈ ((rest.map Prod.fst).filter g.isBranch).eraseDups := by
        rw [← map_node_branchesOf h.1]
        exact List.mem_map_of_mem hb
      rw [heq]
      exact (List.mem_filter.1 (List.mem_eraseDups.1 hlisted)).2

/-- The same in terms of places. -/
theorem lastTurn_of_mem_branchesOf (hlen : l.edges.length = l.nodes.length)
    (h : ∀ k ∈ l.edges, ∃ e, g.edge? k = some e) {b : LoopBranch}
    (hb : b ∈ branchesOf g (l.nodes.zip l.edges)) : LastTurn g l b.node b.curved := by
  have hlap : ∀ p ∈ l.nodes.zip l.edges, ∃ e, g.edge? p.2 = some e :=
    fun p hp => h p.2 (List.of_mem_zip hp).2
  obtain ⟨front, k, back, e, heq, hback, he, hslot⟩ := last_of_mem_branchesOf hlap hb
  have hnodes : l.nodes = front.map Prod.fst ++ b.node :: back.map Prod.fst := by
    rw [← List.map_fst_zip (Nat.le_of_eq hlen.symm), heq, List.map_append, List.map_cons]
  have hedges : l.edges = front.map Prod.snd ++ k :: back.map Prod.snd := by
    rw [← List.map_snd_zip (Nat.le_of_eq hlen), heq, List.map_append, List.map_cons]
  refine ⟨front.length, k, e, ?_, fun j hj hnode => ?_, ?_, he, hslot⟩
  · rw [hnodes, List.getElem?_append_right (by simp)]
    simp
  · rw [hnodes, List.getElem?_append_right (by rw [List.length_map]; omega), List.length_map,
      show j - front.length = j - front.length - 1 + 1 by omega, List.getElem?_cons_succ] at hnode
    obtain ⟨p, hp, hfst⟩ := List.mem_map.1 (List.mem_of_getElem? hnode)
    exact hback p hp hfst
  · rw [hedges, List.getElem?_append_right (by simp)]
    simp

/-! ## The whole loop -/

theorem edgeLength_lt (k : Nat) : g.edgeLength k < UInt32.size := by
  unfold Graph.edgeLength
  split
  · exact UInt32.toNat_lt _
  · decide

theorem length_openSteps_le (steps : List LoopStep) : (openSteps steps).length ≤ steps.length := by
  unfold openSteps
  split
  · rw [List.length_dropLast]
    exact Nat.sub_le _ _
  · exact Nat.le_refl _

/-- The edges around a loop lead from each node to the next one. -/
theorem forall₂_edgesAround {lines nodes edges : List Nat} (hg : g.WellFormed)
    (h : edgesAround g lines nodes = .ok edges) (hl : lines.length = nodes.length) :
    List.Forall₂ (fun p k => ∃ e, g.edge? k = some e ∧ e.src = p.1 ∧ e.dest = p.2)
      (nodes.zip (nodes.rotate 1)) edges :=
  ((edgesAround_eq_ok_iff hl).1 h).imp fun _ _ => hg.edge_of_edgeBetween?

theorem totalDistance_eq : l.totalDistance g = (l.edges.map g.edgeLength).sum := rfl

/-- What a loop tells is what there is to tell. -/
theorem measures_of_extract (hg : g.WellFormed) (hsteps : steps.length < UInt32.size)
    (h : extract g steps = .ok (some l)) : Measures g steps l := by
  obtain ⟨-, hnodes, hedges, ⟨i, hi, hsensor⟩, hsensors, hbranches⟩ := extract_eq_ok_some_iff.1 h
  have hlen := length_edgesAround hedges (length_lines hnodes)
  have haround := forall₂_edgesAround hg hedges (length_lines hnodes)
  have hknown : ∀ k ∈ l.edges, ∃ e, g.edge? k = some e := by
    intro k hk
    obtain ⟨p, -, hp⟩ := (mem_of_mapM_eq_ok hedges).1 hk
    obtain ⟨e, he, -⟩ := hg.edge_of_edgeBetween? (edgeOn_eq_ok.1 hp)
    exact ⟨e, he⟩
  have hlap : ∀ p ∈ l.nodes.zip l.edges, ∃ e, g.edge? p.2 = some e :=
    fun p hp => hknown p.2 (List.of_mem_zip hp).2
  have hmap : (l.nodes.zip l.edges).map Prod.fst = l.nodes :=
    List.map_fst_zip (Nat.le_of_eq hlen.symm)
  exact {
    nodes := by rw [← map_openSteps, List.map_map]; exact map_nodeId? hnodes
    edges := haround
    sensors := by rw [hsensors]; exact forall₂_sensorsAround hlen
    branches := by rw [hbranches, map_node_branchesOf hlap, hmap]
    turns := by
      intro b hb
      rw [hbranches] at hb
      exact lastTurn_of_mem_branchesOf hlen hknown hb
    sum_eq := by
      rw [← hmap, List.mem_map] at hi
      obtain ⟨p, hp, rfl⟩ := hi
      rw [hsensors, sum_sensorsAround ⟨p, hp, hsensor⟩, travelled, totalDistance_eq,
        ← List.map_snd_zip (Nat.le_of_eq hlen), List.map_map, List.map_snd_zip (Nat.le_of_eq hlen)]
      rfl
    totalDistance_lt := by
      have hcount : l.edges.length < UInt32.size := by
        have hle := length_openSteps_le steps
        have hlines := (mapM_eq_ok_iff.1 hnodes).length_eq
        omega
      have hsum : l.totalDistance g ≤ l.edges.length * (UInt32.size - 1) := by
        rw [totalDistance_eq, ← List.length_map (f := g.edgeLength)]
        refine List.sum_le_card_nsmul _ _ fun d hd => ?_
        obtain ⟨k, -, rfl⟩ := List.mem_map.1 hd
        exact Nat.le_sub_one_of_lt (edgeLength_lt k)
      calc l.totalDistance g
        _ ≤ l.edges.length * (UInt32.size - 1) := hsum
        _ ≤ (UInt32.size - 1) * (UInt32.size - 1) :=
          Nat.mul_le_mul_right _ (Nat.le_sub_one_of_lt hcount)
        _ < UInt64.size := by decide }

end TrackPlan.Calibration

namespace TrackPlan.Registry

variable {r : Registry} {g : Graph} {o : Options} {steps : List LoopStep} {l : Loop}

/-- **Spans.** On a linked graph, a calibration loop lists its nodes and the edges between them, for
every sensor on it the way from the sensor before, and every branch with the way taken last; the
spans add up to its length, which has 64 bits. -/
theorem Reachable.measures_of_link (hr : r.Reachable) (hl : (r.link o).result = .ok g)
    (hsteps : steps.length < UInt32.size)
    (h : Calibration.extract g steps = .ok (some l)) : Calibration.Measures g steps l :=
  Calibration.measures_of_extract ((wires_of_link hl).wellFormed hr.valid) hsteps h

/-- A siding with a sensor on each track and one ahead of it. -/
def twoLapRing : String :=
  "sensor S : 0 -> B @ SR : 1 -> C\nsensor P : 2 -> N @ PR : 3 -> M\n" ++
    "sensor Q : 4 -> N @ QR : 5 -> M\nswitch B : 1 -> P/(Q) @ M -> SR\n" ++
    "switch C : 2 -> PR/(QR) @ N -> S\ndist S B 1mm\ndist B P 20mm\ndist P N 300mm\n" ++
    "dist B Q 4000mm\ndist Q N 50000mm\ndist N S 600000mm"

/-- Two laps from the branch on, straight on and then curved, and the branch once more. -/
def twoLaps : List LoopStep :=
  [⟨"B", 12⟩, ⟨"P", 13⟩, ⟨"N", 14⟩, ⟨"S", 15⟩, ⟨"B", 16⟩, ⟨"Q", 17⟩, ⟨"N", 18⟩, ⟨"S", 19⟩, ⟨"B", 20⟩]

def twoLapLoop : Loop :=
  ⟨[6, 2, 9, 0, 6, 4, 9, 0], [6, 2, 11, 0, 7, 4, 11, 0],
    [⟨2, 21⟩, ⟨0, 600300⟩, ⟨4, 4001⟩, ⟨0, 650000⟩], [⟨6, true⟩]⟩

theorem measures_twoLaps : ∃ r g, Reachable r ∧ (r.link {}).result = .ok g ∧
    twoLaps.length < UInt32.size ∧ Calibration.extract g twoLaps = .ok (some twoLapLoop) ∧
    Calibration.Measures g twoLaps twoLapLoop := by
  have h : (TrackPlan.compile twoLapRing {}).result.toOption.map
      (fun t => Calibration.extract t.graph twoLaps) = some (.ok (some twoLapLoop)) := by
    rw [compile_eq_inserting]
    decide +kernel
  obtain ⟨t, ht, hloop⟩ := exists_of_toOption_map h
  obtain ⟨records, -, r, hr, hc⟩ := TrackPlan.compile_eq_ok.1 ht
  obtain ⟨hlink, -⟩ := compile_eq_ok.1 hc
  have hsteps : twoLaps.length < UInt32.size := by decide
  exact ⟨r, t.graph, reachable_ofRecords hr, hlink, hsteps, hloop,
    (reachable_ofRecords hr).measures_of_link hlink hsteps hloop⟩

end TrackPlan.Registry
