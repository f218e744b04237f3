import Mathlib.Logic.Relation
import TrackPlan.Proofs.Route.Trace

/-!
# The heap settles labels

The search does not keep labels. It notes distances and edges in arrays, node by node, and does not
take an entry out of the heap when its node is found nearer, but skips it when its turn comes.

1. `Tells` is the relation between what the search knows and the labels. The open labels have their
   entries in the heap; the other entries are stale.
2. `Tells.insert`, `Tells.relax`, `Tells.follow`, `Tells.settle` and `Tells.skip` are its parts, and
   `Tells.step` is the step: a label is settled, or an entry is skipped. `Tells.exists_tells` is the
   run over all states that the search reaches.
3. `Tells.of_step_eq_none`: the search ends when nothing is open or it is the turn of the node that
   it looks for. `WellFormed.shortestRoute?_cases` says what it returns then.
4. `Tells.fits`: on the way, no number needs more than 64 bits.
-/

namespace TrackPlan

/-- What is put into the heap for a label. -/
def RouteLabel.entry (l : RouteLabel) : Nat × Nat := (l.distance, l.node)

/-! ## Open labels of one node -/

namespace Graph

open RouteLabel

variable {new : RouteLabel} {opened : List RouteLabel}

/-- A label that is no nearer than that of its node is not kept. -/
theorem relax_eq_self (hopen : ∃ m ∈ opened, m.node = new.node)
    (hle : ∀ m ∈ opened, m.node = new.node → m.distance ≤ new.distance) :
    relax new opened = opened := by
  induction opened with
  | nil => simp at hopen
  | cons l rest ih =>
    rw [List.exists_mem_cons_iff] at hopen
    obtain ⟨hhere, hrest⟩ := List.forall_mem_cons.1 hle
    unfold relax
    split
    · next hnode => rw [if_neg (Nat.not_lt.2 (hhere hnode))]
    · next hnode => rw [ih (hopen.resolve_left hnode) hrest]

/-- A label that is nearer than that of its node takes its place. -/
theorem relax_perm (hd : (opened.map RouteLabel.node).Nodup)
    (hlt : ∀ m ∈ opened, m.node = new.node → new.distance < m.distance) :
    (relax new opened).Perm (new :: opened.filter (·.node != new.node)) := by
  induction opened with
  | nil => exact .refl _
  | cons l rest ih =>
    obtain ⟨hhere, hrest⟩ := List.forall_mem_cons.1 hlt
    rw [List.map_cons, List.nodup_cons] at hd
    unfold relax
    split
    · next hnode =>
      have hothers : rest.filter (·.node != new.node) = rest :=
        List.filter_eq_self.2 fun m hm => by
          rw [bne_iff_ne, ← hnode]
          exact fun heq => hd.1 (heq ▸ List.mem_map_of_mem hm)
      rw [if_pos (hhere hnode), List.filter_cons_of_neg (by simp [hnode]), hothers]
    · next hnode =>
      rw [List.filter_cons_of_pos (by simpa using hnode)]
      exact ((ih hd.2 hrest).cons l).trans (.swap ..)

end Graph

namespace RouteSearch

open TrackPlan.Graph RouteLabel

/-! ## The heap -/

variable {a b c x : Nat × Nat} {heap rest : List (Nat × Nat)}

theorem before_trans (hab : before a b = true) (hbc : before b c = true) : before a c = true := by
  simp only [before, Bool.or_eq_true, Bool.and_eq_true, decide_eq_true_eq, beq_iff_eq] at *
  omega

theorem before_or_before (hne : a ≠ b) : before a b = true ∨ before b a = true := by
  have hne : ¬ (a.1 = b.1 ∧ a.2 = b.2) := fun h => hne (Prod.ext h.1 h.2)
  simp only [before, Bool.or_eq_true, Bool.and_eq_true, decide_eq_true_eq, beq_iff_eq]
  omega

theorem not_before_self (a : Nat × Nat) : ¬ before a a = true := by
  simp [before]

@[simp] theorem mem_push : x ∈ push a heap ↔ x = a ∨ x ∈ heap := by
  induction heap with
  | nil => simp [push]
  | cons next rest ih =>
    unfold push
    split
    · simp
    · simp [ih, or_left_comm]

theorem pairwise_push (h : heap.Pairwise (before · · = true)) (hnew : a ∉ heap) :
    (push a heap).Pairwise (before · · = true) := by
  induction heap with
  | nil => exact List.pairwise_singleton ..
  | cons next rest ih =>
    have hnext : ∀ x ∈ rest, before next x = true := (List.pairwise_cons.1 h).1
    rw [List.mem_cons, not_or] at hnew
    unfold push
    split
    · next hbefore =>
      refine List.pairwise_cons.2 ⟨List.forall_mem_cons.2 ⟨hbefore, ?_⟩, h⟩
      exact fun x hx => before_trans hbefore (hnext x hx)
    · next hbefore =>
      refine List.pairwise_cons.2 ⟨fun x hx => ?_, ih h.tail hnew.2⟩
      rcases mem_push.1 hx with rfl | hx
      · exact (before_or_before hnew.1).resolve_left hbefore
      · exact hnext x hx

/-! ## What is noted of a node -/

variable {s s' : RouteSearch} {node d : Nat} {l m new : RouteLabel} {e : Edge}

theorem distOf_eq (h : s.dist[node]? = some d) : s.distOf node = d := by
  rw [distOf, h, Option.getD_some]

theorem lt_size_of_lt_distOf (h : d < s.distOf node) : node < s.dist.size := by
  by_contra hout
  rw [distOf, Array.getElem?_eq_none (Nat.le_of_not_lt hout)] at h
  cases h

/-- What is known when a label has been noted. -/
def note (s : RouteSearch) (l : RouteLabel) : RouteSearch where
  dist := s.dist.setIfInBounds l.node l.distance
  via := s.via.setIfInBounds l.node (l.via.map Edge.id)
  heap := push l.entry s.heap

theorem relax_eq : s.relax l.distance e =
    if (labelAlong l e).distance < s.distOf e.dest then s.note (labelAlong l e) else s := rfl

theorem distOf_note_of_ne (hne : node ≠ new.node) : (s.note new).distOf node = s.distOf node := by
  rw [distOf, distOf, note, Array.getElem?_setIfInBounds_ne hne.symm]

/-! ## The relation -/

variable {g : Graph} {src dest : Nat} {settled opened more : List RouteLabel} {edges : List Edge}

/-- The arrays tell the labels, and the heap tells which of them are open. -/
structure Tells (s : RouteSearch) (g : Graph) (settled opened : List RouteLabel) : Prop where
  size_dist : s.dist.size = g.nodeCount
  size_via : s.via.size = g.nodeCount
  distinct : (opened.map RouteLabel.node).Nodup
  apart : ∀ l ∈ settled, ∀ m ∈ opened, l.node ≠ m.node
  dist_eq : ∀ l ∈ settled ++ opened, s.dist[l.node]? = some l.distance
  via_eq : ∀ l ∈ settled ++ opened, s.via[l.node]? = some (l.via.map Edge.id)
  unreached_of : ∀ node < g.nodeCount, (∀ l ∈ settled ++ opened, l.node ≠ node) →
    s.dist[node]? = some unreached
  ascending : s.heap.Pairwise (before · · = true)
  entry_mem : ∀ l ∈ opened, l.entry ∈ s.heap
  entry_or_stale : ∀ x ∈ s.heap, (∃ l ∈ opened, x = l.entry) ∨ s.distOf x.2 < x.1
  /-- An entry is at most as far as one longest edge for every settled node. -/
  near : ∀ x ∈ s.heap, x.1 ≤ settled.length * longestEdge

theorem Tells.distOf_eq (h : s.Tells g settled opened) (hl : l ∈ settled ++ opened) :
    s.distOf l.node = l.distance :=
  RouteSearch.distOf_eq (h.dist_eq l hl)

/-- No entry is nearer than what has been noted of its node. -/
theorem Tells.distOf_le (h : s.Tells g settled opened) (hx : x ∈ s.heap) :
    s.distOf x.2 ≤ x.1 := by
  rcases h.entry_or_stale x hx with ⟨l, hl, rfl⟩ | hstale
  · exact Nat.le_of_eq (h.distOf_eq (List.mem_append_right _ hl))
  · exact Nat.le_of_lt hstale

theorem Tells.start (hsrc : src < g.nodeCount) :
    (RouteSearch.start g src).Tells g [] [⟨src, 0, none⟩] where
  size_dist := by simp [RouteSearch.start]
  size_via := by simp [RouteSearch.start]
  distinct := List.nodup_singleton _
  apart := fun l hl => absurd hl List.not_mem_nil
  dist_eq := by simp [RouteSearch.start, hsrc]
  via_eq := by simp [RouteSearch.start, hsrc]
  unreached_of := by
    intro node hnode hne
    have hne : src ≠ node := hne _ (List.mem_singleton.2 rfl)
    simp [RouteSearch.start, hne, hnode]
  ascending := List.pairwise_singleton ..
  entry_mem := by simp [RouteSearch.start, entry]
  entry_or_stale := by simp [RouteSearch.start, entry]
  near := by simp [RouteSearch.start]

theorem Tells.perm (h : s.Tells g settled opened) (hp : opened.Perm more) :
    s.Tells g settled more := by
  have hmem : ∀ l, l ∈ settled ++ more ↔ l ∈ settled ++ opened := fun l =>
    (hp.symm.append_left settled).mem_iff
  exact { h with
    distinct := (hp.map _).nodup_iff.1 h.distinct
    apart := fun l hl m hm => h.apart l hl m (hp.mem_iff.2 hm)
    dist_eq := fun l hl => h.dist_eq l ((hmem l).1 hl)
    via_eq := fun l hl => h.via_eq l ((hmem l).1 hl)
    unreached_of := fun node hnode hne =>
      h.unreached_of node hnode fun l hl => hne l ((hmem l).2 hl)
    entry_mem := fun l hl => h.entry_mem l (hp.mem_iff.2 hl)
    entry_or_stale := fun x hx => (h.entry_or_stale x hx).imp_left fun ⟨l, hl, heq⟩ =>
      ⟨l, hp.mem_iff.1 hl, heq⟩ }

/-! ## Following edges -/

/-- A label that is nearer than what has been noted is noted. The entry of the label whose place it
takes becomes stale. -/
theorem Tells.insert (h : s.Tells g settled opened) (hfree : ∀ t ∈ settled, t.node ≠ new.node)
    (hlt : new.distance < s.distOf new.node)
    (hnear : new.distance ≤ settled.length * longestEdge) :
    (s.note new).Tells g settled (new :: opened.filter (·.node != new.node)) := by
  have hdist := lt_size_of_lt_distOf hlt
  have hvia : new.node < s.via.size := by rwa [h.size_via, ← h.size_dist]
  have hself : (s.note new).distOf new.node = new.distance :=
    RouteSearch.distOf_eq (Array.getElem?_setIfInBounds_self_of_lt hdist)
  have hothers : ∀ l ∈ settled ++ new :: opened.filter (·.node != new.node),
      l = new ∨ l.node ≠ new.node ∧ l ∈ settled ++ opened := by
    simp only [List.mem_append, List.mem_cons, List.mem_filter, bne_iff_ne]
    rintro l (hl | rfl | ⟨hl, hne⟩)
    · exact Or.inr ⟨hfree l hl, Or.inl hl⟩
    · exact Or.inl rfl
    · exact Or.inr ⟨hne, Or.inr hl⟩
  have hfresh : ∀ x ∈ s.heap, x.2 = new.node → new.distance < x.1 := by
    intro x hx hnode
    rw [← hnode] at hlt
    exact Nat.lt_of_lt_of_le hlt (h.distOf_le hx)
  exact {
    size_dist := by rw [note, Array.size_setIfInBounds, h.size_dist]
    size_via := by rw [note, Array.size_setIfInBounds, h.size_via]
    distinct := by
      rw [List.map_cons, List.nodup_cons]
      exact ⟨by simp, h.distinct.sublist (List.filter_sublist.map _)⟩
    apart := by
      intro l hl m hm
      rcases List.mem_cons.1 hm with rfl | hm
      · exact hfree l hl
      · exact h.apart l hl m (List.mem_filter.1 hm).1
    dist_eq := by
      intro l hl
      rcases hothers l hl with rfl | ⟨hne, hl⟩
      · exact Array.getElem?_setIfInBounds_self_of_lt hdist
      · rw [note, Array.getElem?_setIfInBounds_ne hne.symm, h.dist_eq l hl]
    via_eq := by
      intro l hl
      rcases hothers l hl with rfl | ⟨hne, hl⟩
      · exact Array.getElem?_setIfInBounds_self_of_lt hvia
      · rw [note, Array.getElem?_setIfInBounds_ne hne.symm, h.via_eq l hl]
    unreached_of := by
      intro node hnode hnone
      have hne : new.node ≠ node := hnone new (by simp)
      rw [note, Array.getElem?_setIfInBounds_ne hne]
      refine h.unreached_of node hnode fun l hl => ?_
      by_cases hl' : l.node = new.node
      · rwa [hl']
      · refine hnone l ?_
        simp only [List.mem_append, List.mem_cons, List.mem_filter, bne_iff_ne] at hl ⊢
        exact hl.imp_right fun hl => Or.inr ⟨hl, hl'⟩
    ascending :=
      pairwise_push h.ascending fun hmem => Nat.lt_irrefl _ (hfresh _ hmem rfl)
    entry_mem := by
      intro l hl
      rw [note, mem_push]
      rcases List.mem_cons.1 hl with rfl | hl
      · exact Or.inl rfl
      · exact Or.inr (h.entry_mem l (List.mem_filter.1 hl).1)
    entry_or_stale := by
      intro x hx
      rcases mem_push.1 hx with rfl | hx
      · exact Or.inl ⟨new, List.mem_cons_self, rfl⟩
      · by_cases hnode : x.2 = new.node
        · rw [hnode, hself]
          exact Or.inr (hfresh x hx hnode)
        · rw [distOf_note_of_ne hnode]
          refine (h.entry_or_stale x hx).imp_left ?_
          rintro ⟨l, hl, rfl⟩
          exact ⟨l, List.mem_cons_of_mem _ (List.mem_filter.2 ⟨hl, bne_iff_ne.2 hnode⟩), rfl⟩
    near := by
      intro x hx
      rcases mem_push.1 hx with rfl | hx
      · exact hnear
      · exact h.near x hx }

/-- One edge is followed: its label becomes open, unless its node is settled or has a label that is
no farther. -/
theorem Tells.relax (h : s.Tells g settled opened) (hlast : ∀ t ∈ settled, t.distance ≤ l.distance)
    (hroom : settled.length * longestEdge < unreached) (hdest : e.dest < g.nodeCount)
    (hnear : l.distance + e.distance.toNat ≤ settled.length * longestEdge) :
    (s.relax l.distance e).Tells g settled
      (if settled.any (·.node == e.dest) then opened
        else Graph.relax (labelAlong l e) opened) := by
  rw [relax_eq]
  split
  · next hlt =>
    have hfree : ∀ t ∈ settled, t.node ≠ e.dest := by
      intro t ht hnode
      rw [← hnode, h.distOf_eq (List.mem_append_left _ ht)] at hlt
      have := hlast t ht
      simp only [labelAlong] at hlt
      omega
    have hfarther : ∀ m ∈ opened, m.node = (labelAlong l e).node →
        (labelAlong l e).distance < m.distance := by
      intro m hm hnode
      rwa [← h.distOf_eq (List.mem_append_right _ hm), hnode]
    rw [if_neg (by simpa using hfree)]
    have hnoted : (s.note (labelAlong l e)).Tells g settled
        (labelAlong l e :: opened.filter (·.node != (labelAlong l e).node)) :=
      h.insert hfree hlt hnear
    exact hnoted.perm (relax_perm h.distinct hfarther).symm
  · next hge =>
    split
    · exact h
    · next hfree =>
      have hopen : ∃ m ∈ opened, m.node = (labelAlong l e).node := by
        by_contra hno
        have hdist := h.unreached_of e.dest hdest fun m hm hnode => by
          rcases List.mem_append.1 hm with hm | hm
          · exact hfree (List.any_eq_true.2 ⟨m, hm, beq_iff_eq.2 hnode⟩)
          · exact hno ⟨m, hm, hnode⟩
        rw [RouteSearch.distOf_eq hdist] at hge
        simp only [labelAlong] at hge
        omega
      rw [relax_eq_self hopen fun m hm hnode => ?_]
      · exact h
      · rw [← h.distOf_eq (List.mem_append_right _ hm), hnode]
        exact Nat.le_of_not_lt hge

theorem Tells.follow (h : s.Tells g settled opened)
    (hlast : ∀ t ∈ settled, t.distance ≤ l.distance)
    (hroom : settled.length * longestEdge < unreached)
    (hedges : ∀ e ∈ edges, e.dest < g.nodeCount ∧
      l.distance + e.distance.toNat ≤ settled.length * longestEdge) :
    (edges.foldl (RouteSearch.relax l.distance) s).Tells g settled
      (followEdges settled l edges opened) := by
  induction edges generalizing s opened with
  | nil => exact h
  | cons e rest ih =>
    obtain ⟨⟨hdest, hnear⟩, hrest⟩ := List.forall_mem_cons.1 hedges
    rw [List.foldl_cons, followEdges_cons]
    exact ih (h.relax hlast hroom hdest hnear) hrest

/-! ## Taking an entry out of the heap -/

theorem Tells.mem_rest (h : s.Tells g settled opened) (hheap : s.heap = x :: rest)
    (hl : l ∈ opened) (hne : l.entry ≠ x) : l.entry ∈ rest := by
  have hmem := h.entry_mem l hl
  rw [hheap] at hmem
  exact (List.mem_cons.1 hmem).resolve_left hne

theorem Tells.before_of_mem_rest (h : s.Tells g settled opened) (hheap : s.heap = x :: rest)
    (ha : a ∈ rest) : before x a = true := by
  have hascending := h.ascending
  rw [hheap] at hascending
  exact (List.pairwise_cons.1 hascending).1 a ha

/-- An entry whose node was found nearer since does not matter any more. -/
theorem Tells.skip (h : s.Tells g settled opened) (hheap : s.heap = x :: rest)
    (hstale : s.distOf x.2 < x.1) : Tells { s with heap := rest } g settled opened := by
  have hrest : ∀ y ∈ rest, y ∈ s.heap := fun y hy => hheap ▸ List.mem_cons_of_mem _ hy
  exact { h with
    ascending := (hheap ▸ h.ascending).tail
    entry_mem := by
      intro l hl
      refine h.mem_rest hheap hl ?_
      rintro rfl
      have heq : s.distOf l.node = l.distance := h.distOf_eq (List.mem_append_right _ hl)
      exact absurd hstale (Nat.not_lt.2 (Nat.le_of_eq heq.symm))
    entry_or_stale := fun y hy => h.entry_or_stale y (hrest y hy)
    near := fun y hy => h.near y (hrest y hy) }

/-- The entry of an open label comes out of the heap, and the label is settled. -/
theorem Tells.settle (h : s.Tells g settled opened) (hheap : s.heap = l.entry :: rest)
    (hl : l ∈ opened) :
    Tells { s with heap := rest } g (l :: settled) (opened.filter (·.node != l.node)) := by
  have hrest : ∀ y ∈ rest, y ∈ s.heap := fun y hy => hheap ▸ List.mem_cons_of_mem _ hy
  have hlabels : ∀ m ∈ (l :: settled) ++ opened.filter (·.node != l.node),
      m ∈ settled ++ opened := by
    simp only [List.cons_append, List.mem_cons, List.mem_append, List.mem_filter]
    rintro m (rfl | hm | ⟨hm, -⟩)
    · exact Or.inr hl
    · exact Or.inl hm
    · exact Or.inr hm
  exact { h with
    distinct := h.distinct.sublist (List.filter_sublist.map _)
    apart := by
      intro t ht m hm
      obtain ⟨hm, hne⟩ := List.mem_filter.1 hm
      rcases List.mem_cons.1 ht with rfl | ht
      · exact (bne_iff_ne.1 hne).symm
      · exact h.apart t ht m hm
    dist_eq := fun m hm => h.dist_eq m (hlabels m hm)
    via_eq := fun m hm => h.via_eq m (hlabels m hm)
    unreached_of := by
      intro node hnode hnone
      refine h.unreached_of node hnode fun m hm => ?_
      by_cases hm' : m.node = l.node
      · rw [hm']
        exact hnone l (by simp)
      · refine hnone m ?_
        simp only [List.cons_append, List.mem_cons, List.mem_append, List.mem_filter,
          bne_iff_ne] at hm ⊢
        exact Or.inr (hm.imp_right fun hm => ⟨hm, hm'⟩)
    ascending := (hheap ▸ h.ascending).tail
    entry_mem := by
      intro m hm
      obtain ⟨hm, hne⟩ := List.mem_filter.1 hm
      exact h.mem_rest hheap hm fun heq => bne_iff_ne.1 hne (congrArg Prod.snd heq)
    entry_or_stale := by
      intro y hy
      refine (h.entry_or_stale y (hrest y hy)).imp_left ?_
      rintro ⟨m, hm, rfl⟩
      refine ⟨m, List.mem_filter.2 ⟨hm, bne_iff_ne.2 fun hnode => ?_⟩, rfl⟩
      -- the label would have the same entry, which is no longer there
      have hdist : m.distance = l.distance := by
        rw [← h.distOf_eq (List.mem_append_right _ hm),
          ← h.distOf_eq (List.mem_append_right _ hl), hnode]
      have hentry : m.entry = l.entry := Prod.ext hdist hnode
      exact not_before_self _ (hentry ▸ h.before_of_mem_rest hheap hy)
    near := by
      intro y hy
      refine Nat.le_trans (h.near y (hrest y hy)) (Nat.mul_le_mul_right _ ?_)
      exact Nat.le_succ _ }

/-- The first entry is that of the label settled first, unless it is stale. -/
theorem Tells.eq_entry_least (h : s.Tells g settled opened) (hheap : s.heap = x :: rest)
    (hfresh : ¬ s.distOf x.2 < x.1) :
    ∃ first others, opened = first :: others ∧ x = (least first others).entry := by
  obtain ⟨m, hm, rfl⟩ :=
    (h.entry_or_stale x (hheap ▸ List.mem_cons_self)).resolve_right hfresh
  cases opened with
  | nil => cases hm
  | cons first others =>
    refine ⟨first, others, rfl, ?_⟩
    by_contra hne
    have hlater := h.mem_rest hheap (least_mem first others) (Ne.symm hne)
    exact not_precedes_least hm (h.before_of_mem_rest hheap hlater)

/-! ## Steps of the search -/

/-- The step: a stale entry is skipped, or the label settled first is settled. -/
theorem Tells.step (h : s.Tells g settled opened) (hp : g.Passes src dest settled opened)
    (hg : g.WellFormed) (hn : g.nodeCount ≤ nodeCeiling) (hsrc : src < g.nodeCount)
    (hs : step g dest s = some s') :
    ∃ settled opened, g.Passes src dest settled opened ∧ s'.Tells g settled opened := by
  unfold RouteSearch.step at hs
  split at hs
  · cases hs
  · next d node rest hheap =>
    split at hs
    · cases hs
    · next hne =>
      split at hs
      · next hstale =>
        cases hs
        exact ⟨settled, opened, hp, h.skip hheap hstale⟩
      · next hfresh =>
        cases hs
        obtain ⟨first, others, rfl, hentry⟩ := h.eq_entry_least hheap hfresh
        have hl := least_mem first others
        generalize hleast : least first others = l at *
        obtain ⟨rfl, rfl⟩ := Prod.mk.inj hentry
        have hpasses := hp.settle hleast.symm hne
        have hroom := hpasses.room hg hn hsrc
        refine ⟨_, _, hpasses, (h.settle hheap hl).follow ?_ (by omega) fun e he => ?_⟩
        · rw [List.forall_mem_cons]
          exact ⟨Nat.le_refl _, fun t ht => (hp.searching hg).ordered t ht l hl⟩
        · have hlast := h.near _ (h.entry_mem l hl)
          have hedge := distance_le_longestEdge e
          refine ⟨hg.dest_lt (hg.mem_outgoing_iff.1 he).1, ?_⟩
          rw [List.length_cons, Nat.add_mul, Nat.one_mul]
          exact Nat.add_le_add hlast hedge

/-- A stale entry is not one of the node that is looked for: the entry of its label is out before. -/
theorem Tells.ne_dest_of_stale (h : s.Tells g settled opened)
    (hopen : ∀ l ∈ settled, l.node ≠ dest) (hdest : dest < g.nodeCount)
    (hroom : settled.length * longestEdge < unreached) (hheap : s.heap = (d, node) :: rest)
    (hstale : s.distOf node < d) : node ≠ dest := by
  rintro rfl
  have hnear : d ≤ settled.length * longestEdge := h.near (d, node) (hheap ▸ List.mem_cons_self)
  by_cases hlabel : ∃ m ∈ opened, m.node = node
  · obtain ⟨m, hm, rfl⟩ := hlabel
    rw [h.distOf_eq (List.mem_append_right _ hm)] at hstale
    have hrest := h.mem_rest hheap hm fun heq => Nat.ne_of_lt hstale (congrArg Prod.fst heq)
    have hsooner : before m.entry (d, m.node) = true := by simp [before, entry, hstale]
    exact not_before_self _ (before_trans (h.before_of_mem_rest hheap hrest) hsooner)
  · have hnone := h.unreached_of node hdest fun m hm hnode => by
      rcases List.mem_append.1 hm with hm | hm
      · exact hopen m hm hnode
      · exact hlabel ⟨m, hm, hnode⟩
    rw [RouteSearch.distOf_eq hnone] at hstale
    omega

/-- The search ends when nothing is open, or when it is the turn of the node that it looks for. -/
theorem Tells.of_step_eq_none (h : s.Tells g settled opened)
    (hp : g.Passes src dest settled opened) (hdest : dest < g.nodeCount)
    (hroom : settled.length * longestEdge < unreached) (hs : RouteSearch.step g dest s = none) :
    opened = [] ∨ ∃ first others, opened = first :: others ∧ (least first others).node = dest := by
  unfold RouteSearch.step at hs
  split at hs
  · next hheap =>
    refine Or.inl (List.eq_nil_iff_forall_not_mem.2 fun l hl => ?_)
    have hmem := h.entry_mem l hl
    rw [hheap] at hmem
    cases hmem
  · next d node rest hheap =>
    split at hs
    · next hnode =>
      have hfresh : ¬ s.distOf node < d := fun hstale =>
        h.ne_dest_of_stale hp.ne_dest hdest hroom hheap hstale hnode
      obtain ⟨first, others, hopened, hentry⟩ := h.eq_entry_least hheap hfresh
      exact Or.inr ⟨first, others, hopened, (congrArg Prod.snd hentry).symm.trans hnode⟩
    · split at hs <;> cases hs

/-! ## The run -/

/-- The search comes from one state to the other. -/
def Leads (g : Graph) (dest : Nat) : RouteSearch → RouteSearch → Prop :=
  Relation.ReflTransGen fun s s' => step g dest s = some s'

/-- The run leads to a state from which there is no next step. -/
theorem leads_run (g : Graph) (dest : Nat) (s : RouteSearch) :
    Leads g dest s (s.run g dest) ∧ step g dest (s.run g dest) = none := by
  induction s using RouteSearch.run.induct g dest with
  | case1 s hs =>
    rw [run, hs]
    exact ⟨.refl, hs⟩
  | case2 s s' hs ih =>
    rw [run, hs]
    exact ⟨.head hs ih.1, ih.2⟩

/-- The run: every state that the search reaches tells the labels of some state between start and
end. -/
theorem exists_tells (hg : g.WellFormed) (hn : g.nodeCount ≤ nodeCeiling)
    (hsrc : src < g.nodeCount) (h : Leads g dest (start g src) s) :
    ∃ settled opened, g.Passes src dest settled opened ∧ s.Tells g settled opened := by
  induction h with
  | refl => exact ⟨_, _, .start, Tells.start hsrc⟩
  | tail _ hs ih =>
    obtain ⟨settled, opened, hp, htells⟩ := ih
    exact htells.step hp hg hn hsrc hs

/-- What is known has 64 bits, and so has every distance that is added up next. No distance is taken
for that of a node that has not been reached. -/
structure Fits (s : RouteSearch) (g : Graph) : Prop where
  dist_le : ∀ d ∈ s.dist, d ≤ unreached
  heap_lt : ∀ x ∈ s.heap, x.1 < unreached
  sum_lt : ∀ x ∈ s.heap, ∀ e ∈ g.outgoing x.2, x.1 + e.distance.toNat < unreached

theorem Tells.fits (h : s.Tells g settled opened) (hp : g.Passes src dest settled opened)
    (hg : g.WellFormed) (hn : g.nodeCount ≤ nodeCeiling) (hsrc : src < g.nodeCount) :
    s.Fits g := by
  have hroom := hp.room hg hn hsrc
  refine ⟨fun d hd => ?_, fun x hx => ?_, fun x hx e _ => ?_⟩
  · obtain ⟨node, hnode⟩ := Array.getElem?_of_mem hd
    by_cases hlabel : ∃ l ∈ settled ++ opened, l.node = node
    · obtain ⟨l, hl, rfl⟩ := hlabel
      rw [h.dist_eq l hl, Option.some.injEq] at hnode
      rw [← hnode]
      exact Nat.le_of_lt ((hg.bounded_of_passes hn hsrc hp).distance_lt l hl)
    · have hlt : node < g.nodeCount := h.size_dist ▸ (Array.getElem?_eq_some_iff.1 hnode).1
      have hnone := h.unreached_of node hlt fun l hl heq => hlabel ⟨l, hl, heq⟩
      rw [hnone, Option.some.injEq] at hnode
      exact Nat.le_of_eq hnode.symm
  · have := h.near x hx
    omega
  · have := h.near x hx
    have := distance_le_longestEdge e
    omega

end RouteSearch

namespace Graph

open RouteLabel

variable {g : Graph} {a b src dest : Nat} {edges : List Edge}

/-- The nodes along a walk are found by the positions of its edges. -/
theorem Walk.mapM_dest (h : g.Walk a edges b) (hg : g.WellFormed) :
    (edges.map Edge.id).mapM (fun id => (g.edge? id).map Edge.dest) =
      some (edges.map Edge.dest) := by
  induction h with
  | nil => rfl
  | @cons k b e rest he _ ih =>
    have hid : g.edge? e.id = some e := by rw [hg.edge_id he, he]
    rw [List.map_cons, List.mapM_cons, hid, ih]
    rfl

/-- What a search for a route comes to: nothing is open any more, or a route is traced back from the
label of the node that it looks for. -/
theorem WellFormed.shortestRoute?_cases (hg : g.WellFormed) (hn : g.nodeCount ≤ nodeCeiling)
    (hsrc : src < g.nodeCount) (hdest : dest < g.nodeCount) :
    (g.shortestRoute? src dest = none ∧ ∃ settled, g.Passes src dest settled []) ∨
      ∃ settled first others, g.Passes src dest settled (first :: others) ∧
        (least first others).node = dest ∧ g.shortestRoute? src dest =
          some ⟨nodesAlong src (traceBack dest (least first others :: settled)).reverse,
            (traceBack dest (least first others :: settled)).reverse.map Edge.id,
            (least first others).distance⟩ := by
  obtain ⟨hleads, hend⟩ := RouteSearch.leads_run g dest (.start g src)
  obtain ⟨settled, opened, hp, htells⟩ := RouteSearch.exists_tells hg hn hsrc hleads
  have hroom := hp.room hg hn hsrc
  unfold shortestRoute?
  rw [if_pos ⟨hsrc, hdest⟩]
  generalize (RouteSearch.start g src).run g dest = s at *
  dsimp only
  rcases htells.of_step_eq_none hp hdest (by omega) hend with rfl | ⟨first, others, rfl, hnode⟩
  · have hnone := htells.unreached_of dest hdest (by simpa using hp.ne_dest)
    exact Or.inl ⟨if_pos (RouteSearch.distOf_eq hnone), settled, hp⟩
  · refine Or.inr ⟨settled, first, others, hp, hnode, ?_⟩
    have hl := least_mem first others
    generalize hleast : least first others = l at *
    have hpassed := (hp.searching hg).settle hg hl fun m hm => hleast ▸ distance_least_le hm
    have hlabels : ∀ m ∈ l :: settled, m ∈ settled ++ first :: others := by
      rw [List.forall_mem_cons]
      exact ⟨List.mem_append_right _ hl, fun m hm => List.mem_append_left _ hm⟩
    obtain ⟨htraced, hfounded⟩ := hp.founded hg
    have htraced : g.Traced src (l :: settled) := ⟨hfounded l hl, htraced⟩
    have hreached : l.distance ≠ unreached :=
      Nat.ne_of_lt ((hg.bounded_of_passes hn hsrc hp).distance_lt l (List.mem_append_right _ hl))
    have hback := htraced.edgesBack hpassed.distinct
      (fun m hm => htells.via_eq m (hlabels m hm)) List.mem_cons_self
      (hpassed.length_le hg hsrc)
    have hwalk := (htraced.traceBack hpassed.distinct List.mem_cons_self).1
    have hdist := htells.distOf_eq (List.mem_append_right _ hl)
    rw [hnode] at hback hwalk hdist
    rw [hdist, if_neg hreached, hback, Option.bind_eq_bind, Option.bind_some, ← List.map_reverse,
      hwalk.mapM_dest hg]
    rfl

/-! ## Routes that are found -/

/-- A route that is found is traced back through the labels of some state. -/
theorem WellFormed.exists_passes_of_shortestRoute? (hg : g.WellFormed)
    (hn : g.nodeCount ≤ nodeCeiling) {p : Route} (h : g.shortestRoute? src dest = some p) :
    ∃ settled first others, g.Passes src dest settled (first :: others) ∧
      (least first others).node = dest ∧
        p = ⟨nodesAlong src (traceBack dest (least first others :: settled)).reverse,
          (traceBack dest (least first others :: settled)).reverse.map Edge.id,
          (least first others).distance⟩ := by
  have hends : src < g.nodeCount ∧ dest < g.nodeCount := by
    by_contra hno
    rw [shortestRoute?, if_neg hno] at h
    cases h
  rcases hg.shortestRoute?_cases hn hends.1 hends.2 with
    ⟨hnone, -⟩ | ⟨settled, first, others, hp, hnode, hsome⟩
  · rw [hnone] at h
    cases h
  · rw [hsome, Option.some.injEq] at h
    exact ⟨settled, first, others, hp, hnode, h.symm⟩

/-- The route that is found is as long as the shortest walks. -/
theorem WellFormed.isDistance_of_shortestRoute? (hg : g.WellFormed)
    (hn : g.nodeCount ≤ nodeCeiling) {p : Route} (h : g.shortestRoute? src dest = some p) :
    g.IsDistance src dest p.distance := by
  obtain ⟨settled, first, others, hp, hnode, rfl⟩ := hg.exists_passes_of_shortestRoute? hn h
  exact hp.isDistance hg hnode

/-- A route is found if there is a walk, and not otherwise. -/
theorem WellFormed.exists_shortestRoute?_iff (hg : g.WellFormed) (hn : g.nodeCount ≤ nodeCeiling)
    (hsrc : src < g.nodeCount) (hdest : dest < g.nodeCount) :
    (∃ p, g.shortestRoute? src dest = some p) ↔ ∃ edges, g.Walk src edges dest := by
  rcases hg.shortestRoute?_cases hn hsrc hdest with
    ⟨hnone, settled, hp⟩ | ⟨settled, first, others, hp, hnode, hsome⟩
  · simp [hnone, hp.no_walk hg]
  · obtain ⟨edges, hw, -⟩ := (hp.isDistance hg hnode).exists_walk
    exact iff_of_true ⟨_, hsome⟩ ⟨edges, hw⟩

end Graph

end TrackPlan
