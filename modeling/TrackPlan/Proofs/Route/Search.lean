import Mathlib.Data.List.Perm.Subperm
import TrackPlan.Proofs.Route.Walk

/-!
# Labels find shortest walks

A search for routes comes to this: it keeps a label for every node it has met, settles the nearest
open label, again and again, and ends when it is the turn of the node that it looks for. No edge has
a negative length, so nothing that is still open can lead to a shorter walk.

1. `least_mem` and `distance_least_le` say which label is settled next; `mem_followEdges`,
   `within_followEdges` and `within_followEdges_of_mem` say what following edges does to the open
   ones.
2. `Searching` is the invariant. `Searching.settle` is the step, and `Searching.within_or_le` says
   that a walk out of the settled nodes passes an open label that is no farther.
3. `Passes` are the states between the start and the end, and `Passes.searching` is the run. So the
   search ends with the right distance (`Passes.isDistance`), or there is no walk (`Passes.no_walk`).
-/

namespace TrackPlan

/-! ## The search -/

/-- What a search knows of a node. -/
structure RouteLabel where
  node : Nat
  /-- The distance from the start. -/
  distance : Nat
  /-- The edge by which it is reached, unless it is the start. -/
  via : Option Edge
  deriving DecidableEq, Repr

namespace RouteLabel

/-- Whether `a` is settled before `b`: the nearer first, then the lower position. -/
def precedes (a b : RouteLabel) : Bool :=
  a.distance < b.distance || (a.distance == b.distance && a.node < b.node)

/-- The label settled first of a label and others. -/
def least (first : RouteLabel) (others : List RouteLabel) : RouteLabel :=
  others.foldl (fun best l => if l.precedes best then l else best) first

end RouteLabel

namespace Graph

/-- The open labels with a new one, unless its node has one that is no farther. -/
def relax (new : RouteLabel) : List RouteLabel → List RouteLabel
  | [] => [new]
  | l :: rest =>
    if l.node = new.node then (if new.distance < l.distance then new else l) :: rest
    else l :: relax new rest

/-- The open labels after the edges that leave a settled node have been followed. -/
def follow (g : Graph) (settled : List RouteLabel) (here : RouteLabel) (opened : List RouteLabel) :
    List RouteLabel :=
  (g.outgoing here.node).foldl (fun opened e =>
    if settled.any (·.node == e.dest) then opened
    else relax ⟨e.dest, here.distance + e.distance.toNat, some e⟩ opened) opened

end Graph

/-! ## The nearest label -/

namespace RouteLabel

variable {a b first m : RouteLabel} {others : List RouteLabel}

theorem distance_le_of_not_precedes (h : ¬ a.precedes b = true) : b.distance ≤ a.distance := by
  simp only [precedes, Bool.or_eq_true, Bool.and_eq_true, decide_eq_true_eq, beq_iff_eq,
    not_or] at h
  omega

theorem least_cons (first l : RouteLabel) (others : List RouteLabel) :
    least first (l :: others) = least (if l.precedes first then l else first) others := rfl

theorem least_mem (first : RouteLabel) (others : List RouteLabel) :
    least first others ∈ first :: others := by
  induction others generalizing first with
  | nil => exact List.mem_cons_self
  | cons l rest ih =>
    rw [least_cons]
    rcases List.mem_cons.1 (ih (if l.precedes first then l else first)) with h | h
    · rw [h]
      split <;> simp
    · exact List.mem_cons_of_mem _ (List.mem_cons_of_mem _ h)

theorem not_precedes_trans {c : RouteLabel} (hab : ¬ a.precedes b = true)
    (hbc : ¬ b.precedes c = true) : ¬ a.precedes c = true := by
  simp only [precedes, Bool.or_eq_true, Bool.and_eq_true, decide_eq_true_eq, beq_iff_eq] at *
  omega

/-- No label is settled before the one settled first. -/
theorem not_precedes_least (hm : m ∈ first :: others) :
    ¬ m.precedes (least first others) = true := by
  induction others generalizing first m with
  | nil =>
    rw [List.mem_singleton.1 hm]
    exact fun h => by simp [least, precedes] at h
  | cons l rest ih =>
    rw [least_cons]
    have hhead : ¬ (if l.precedes first then l else first).precedes
        (least (if l.precedes first then l else first) rest) = true := ih List.mem_cons_self
    have hboth : ¬ first.precedes (if l.precedes first then l else first) = true ∧
        ¬ l.precedes (if l.precedes first then l else first) = true := by
      simp only [precedes, Bool.or_eq_true, Bool.and_eq_true, decide_eq_true_eq, beq_iff_eq]
      split <;> omega
    rcases List.mem_cons.1 hm with rfl | hm
    · exact not_precedes_trans hboth.1 hhead
    · rcases List.mem_cons.1 hm with rfl | hm
      · exact not_precedes_trans hboth.2 hhead
      · exact ih (List.mem_cons_of_mem _ hm)

/-- No label is nearer than the one settled first. -/
theorem distance_least_le (hm : m ∈ first :: others) :
    (least first others).distance ≤ m.distance :=
  distance_le_of_not_precedes (not_precedes_least hm)

end RouteLabel

namespace Graph

open RouteLabel

variable {g : Graph} {src dest node d c : Nat} {settled opened labels : List RouteLabel}
  {l m new here : RouteLabel} {e : Edge} {edges : List Edge}

/-! ## Labels of a node -/

/-- One of the labels is at the node, and no farther. -/
def Within (labels : List RouteLabel) (node d : Nat) : Prop :=
  ∃ l ∈ labels, l.node = node ∧ l.distance ≤ d

theorem within_of_mem (h : l ∈ labels) : Within labels l.node l.distance :=
  ⟨l, h, rfl, Nat.le_refl _⟩

theorem Within.mono (h : Within labels node c) (hcd : c ≤ d) : Within labels node d := by
  obtain ⟨l, hl, hnode, hle⟩ := h
  exact ⟨l, hl, hnode, Nat.le_trans hle hcd⟩

theorem Within.subset (h : Within labels node d) {more : List RouteLabel} (hs : labels ⊆ more) :
    Within more node d := by
  obtain ⟨l, hl, hle⟩ := h
  exact ⟨l, hs hl, hle⟩

theorem within_append_iff {more : List RouteLabel} :
    Within (labels ++ more) node d ↔ Within labels node d ∨ Within more node d := by
  unfold Within
  simp only [List.mem_append, or_and_right, exists_or]

/-! ## Open labels -/

theorem eq_or_mem_of_mem_relax (h : m ∈ relax new opened) : m = new ∨ m ∈ opened := by
  induction opened with
  | nil => exact Or.inl (List.mem_singleton.1 h)
  | cons l rest ih =>
    unfold relax at h
    rw [List.mem_cons]
    split at h
    · rcases List.mem_cons.1 h with rfl | h
      · split <;> simp
      · exact Or.inr (Or.inr h)
    · rcases List.mem_cons.1 h with rfl | h
      · exact Or.inr (Or.inl rfl)
      · exact (ih h).imp_right Or.inr

/-- The new label and the open ones have labels of their nodes, no farther, among the relaxed. -/
theorem within_relax (h : m ∈ new :: opened) : Within (relax new opened) m.node m.distance := by
  induction opened with
  | nil => exact within_of_mem h
  | cons l rest ih =>
    rw [List.mem_cons, List.mem_cons] at h
    unfold relax
    split
    · next hnode =>
      have hkept : (if new.distance < l.distance then new else l).node = new.node ∧
          (if new.distance < l.distance then new else l).distance ≤ new.distance ∧
            (if new.distance < l.distance then new else l).distance ≤ l.distance := by
        split
        · next hlt => exact ⟨rfl, Nat.le_refl _, Nat.le_of_lt hlt⟩
        · next hle => exact ⟨hnode, Nat.le_of_not_lt hle, Nat.le_refl _⟩
      rcases h with rfl | rfl | h
      · exact ⟨_, List.mem_cons_self, hkept.1, hkept.2.1⟩
      · exact ⟨_, List.mem_cons_self, hkept.1.trans hnode.symm, hkept.2.2⟩
      · exact within_of_mem (List.mem_cons_of_mem _ h)
    · rcases h with rfl | rfl | h
      · exact (ih List.mem_cons_self).subset (List.subset_cons_self ..)
      · exact within_of_mem List.mem_cons_self
      · exact (ih (List.mem_cons_of_mem _ h)).subset (List.subset_cons_self ..)

/-- The label that an edge gives to the node where it leads. -/
def labelAlong (here : RouteLabel) (e : Edge) : RouteLabel :=
  ⟨e.dest, here.distance + e.distance.toNat, some e⟩

/-- The open labels after some edges have been followed. -/
def followEdges (settled : List RouteLabel) (here : RouteLabel) (edges : List Edge)
    (opened : List RouteLabel) : List RouteLabel :=
  edges.foldl (fun opened e =>
    if settled.any (·.node == e.dest) then opened else relax (labelAlong here e) opened) opened

theorem followEdges_cons : followEdges settled here (e :: edges) opened =
    followEdges settled here edges
      (if settled.any (·.node == e.dest) then opened else relax (labelAlong here e) opened) := rfl

/-- A new open label is that of an edge to a node which is not settled. -/
theorem mem_followEdges (h : m ∈ followEdges settled here edges opened) : m ∈ opened ∨
    ∃ e ∈ edges, m = labelAlong here e ∧ ∀ l ∈ settled, l.node ≠ e.dest := by
  induction edges generalizing opened with
  | nil => exact Or.inl h
  | cons e rest ih =>
    rw [followEdges_cons] at h
    rw [List.exists_mem_cons_iff]
    rcases ih h with h | h
    · split at h
      · exact Or.inl h
      · next hfree =>
        rcases eq_or_mem_of_mem_relax h with rfl | h
        · exact Or.inr (Or.inl ⟨rfl, by simpa using hfree⟩)
        · exact Or.inl h
    · exact Or.inr (Or.inr h)

/-- Following edges takes no label away, except for a nearer one of the same node. -/
theorem within_followEdges (h : m ∈ opened) :
    Within (followEdges settled here edges opened) m.node m.distance := by
  induction edges generalizing opened m with
  | nil => exact within_of_mem h
  | cons e rest ih =>
    rw [followEdges_cons]
    split
    · exact ih h
    · have hrelaxed : Within (relax (labelAlong here e) opened) m.node m.distance :=
        within_relax (List.mem_cons_of_mem _ h)
      obtain ⟨l, hl, hnode, hle⟩ := hrelaxed
      rw [← hnode]
      exact (ih hl).mono hle

/-- An edge that is followed leads to a settled node or to a label no farther than its own. -/
theorem within_followEdges_of_mem (h : e ∈ edges) : (∃ l ∈ settled, l.node = e.dest) ∨
    Within (followEdges settled here edges opened) e.dest
      (here.distance + e.distance.toNat) := by
  induction edges generalizing opened with
  | nil => cases h
  | cons f rest ih =>
    rw [followEdges_cons]
    rcases List.mem_cons.1 h with rfl | h
    · split
      · next hsettled => exact Or.inl (by simpa using hsettled)
      · have hrelaxed : Within (relax (labelAlong here e) opened) e.dest
            (here.distance + e.distance.toNat) := within_relax (m := labelAlong here e)
          List.mem_cons_self
        obtain ⟨l, hl, hnode, hle⟩ := hrelaxed
        rw [← hnode]
        exact Or.inr ((within_followEdges hl).mono hle)
    · exact ih h

/-! ## The invariant -/

/-- What holds of the labels while the search goes on. -/
structure Searching (g : Graph) (src : Nat) (settled opened : List RouteLabel) : Prop where
  /-- A label tells the length of a walk to its node. -/
  attained : ∀ l ∈ settled ++ opened, ∃ edges, g.Walk src edges l.node ∧
    walkLength edges = l.distance
  distinct : (settled.map RouteLabel.node).Nodup
  apart : ∀ l ∈ settled, ∀ m ∈ opened, l.node ≠ m.node
  /-- What is settled is no farther than what is open. -/
  ordered : ∀ l ∈ settled, ∀ m ∈ opened, l.distance ≤ m.distance
  /-- The edges of settled nodes have been followed. -/
  followed : ∀ l ∈ settled, ∀ k e, g.edge? k = some e → e.src = l.node →
    Within (settled ++ opened) e.dest (l.distance + e.distance.toNat)
  origin : Within (settled ++ opened) src 0

theorem Searching.start (g : Graph) (src : Nat) : g.Searching src [] [⟨src, 0, none⟩] where
  attained := by
    intro l hl
    rw [List.nil_append, List.mem_singleton] at hl
    subst hl
    exact ⟨[], .nil src, rfl⟩
  distinct := List.nodup_nil
  apart := fun l hl => absurd hl List.not_mem_nil
  ordered := fun l hl => absurd hl List.not_mem_nil
  followed := fun l hl => absurd hl List.not_mem_nil
  origin := within_of_mem (l := ⟨src, 0, none⟩) (by simp)

/-- What is open after a label is settled was open before, or is the label of an edge that leaves
the settled node. -/
theorem mem_follow (hg : g.WellFormed)
    (hm : m ∈ g.follow (l :: settled) l (opened.filter (·.node != l.node))) :
    (m ∈ opened ∧ m.node ≠ l.node) ∨ ∃ e, g.edge? e.id = some e ∧ e.src = l.node ∧
      m = labelAlong l e ∧ ∀ s ∈ l :: settled, s.node ≠ e.dest := by
  rcases mem_followEdges hm with hm | ⟨e, he, rfl, hfree⟩
  · rw [List.mem_filter, bne_iff_ne] at hm
    exact Or.inl hm
  · obtain ⟨hid, hsrc⟩ := hg.mem_outgoing_iff.1 he
    exact Or.inr ⟨e, hid, hsrc, rfl, hfree⟩

/-- Settling the nearest label takes no label away, except for a nearer one of the same node. -/
theorem within_follow (hleast : ∀ m ∈ opened, l.distance ≤ m.distance)
    (hw : Within (settled ++ opened) node d) : Within ((l :: settled) ++
      g.follow (l :: settled) l (opened.filter (·.node != l.node))) node d := by
  rcases within_append_iff.1 hw with hw | ⟨m, hm, rfl, hle⟩
  · exact within_append_iff.2 (Or.inl (hw.subset (List.subset_cons_self ..)))
  · by_cases hnode : m.node = l.node
    · exact ⟨l, by simp, hnode.symm, Nat.le_trans (hleast m hm) hle⟩
    · have hopen : m ∈ opened.filter (·.node != l.node) :=
        List.mem_filter.2 ⟨hm, bne_iff_ne.2 hnode⟩
      exact within_append_iff.2 (Or.inr ((within_followEdges hopen).mono hle))

/-- The step: the nearest open label is settled, and the edges of its node are followed. -/
theorem Searching.settle (h : g.Searching src settled opened) (hg : g.WellFormed)
    (hl : l ∈ opened) (hleast : ∀ m ∈ opened, l.distance ≤ m.distance) :
    g.Searching src (l :: settled)
      (g.follow (l :: settled) l (opened.filter (·.node != l.node))) := by
  have hlast : ∀ s ∈ l :: settled, s.distance ≤ l.distance := by
    rw [List.forall_mem_cons]
    exact ⟨Nat.le_refl _, fun s hs => h.ordered s hs l hl⟩
  exact {
    attained := by
      intro m hm
      have hbefore : ∀ m ∈ opened, ∃ edges, g.Walk src edges m.node ∧
          walkLength edges = m.distance := fun m hm => h.attained m (List.mem_append_right _ hm)
      rw [List.mem_append, List.mem_cons] at hm
      rcases hm with (rfl | hm) | hm
      · exact hbefore m hl
      · exact h.attained m (List.mem_append_left _ hm)
      · rcases mem_follow hg hm with ⟨hm, -⟩ | ⟨e, he, hsrc, rfl, -⟩
        · exact hbefore m hm
        · obtain ⟨edges, hwalk, hlength⟩ := hbefore l hl
          rw [← hsrc] at hwalk
          exact ⟨edges ++ [e], hwalk.concat he, by simp [hlength, labelAlong]⟩
    distinct := by
      rw [List.map_cons, List.nodup_cons, List.mem_map]
      refine ⟨?_, h.distinct⟩
      rintro ⟨s, hs, hnode⟩
      exact h.apart s hs l hl hnode
    apart := by
      intro s hs m hm
      rcases mem_follow hg hm with ⟨hm, hne⟩ | ⟨e, -, -, rfl, hfree⟩
      · rcases List.mem_cons.1 hs with rfl | hs
        · exact Ne.symm hne
        · exact h.apart s hs m hm
      · exact hfree s hs
    ordered := by
      intro s hs m hm
      refine Nat.le_trans (hlast s hs) ?_
      rcases mem_follow hg hm with ⟨hm, -⟩ | ⟨e, -, -, rfl, -⟩
      · exact hleast m hm
      · exact Nat.le_add_right _ _
    followed := by
      intro s hs k e he hsrc
      rcases List.mem_cons.1 hs with rfl | hs
      · have hout : e ∈ g.outgoing s.node :=
          hg.mem_outgoing_iff.2 ⟨by rw [hg.edge_id he, he], hsrc⟩
        refine within_append_iff.2 ((within_followEdges_of_mem hout).imp_left ?_)
        rintro ⟨t, ht, hnode⟩
        exact ⟨t, ht, hnode, Nat.le_trans (hlast t ht) (Nat.le_add_right _ _)⟩
      · exact within_follow hleast (h.followed s hs k e he hsrc)
    origin := within_follow hleast h.origin }

/-! ## What the search finds -/

/-- A walk that begins at a labelled node ends at a settled one, or is no shorter than some open
label. -/
theorem Searching.within_or_le (h : g.Searching src settled opened)
    (hw : g.Walk node edges dest) (hnode : Within (settled ++ opened) node d) :
    Within settled dest (d + walkLength edges) ∨
      ∃ m ∈ opened, m.distance ≤ d + walkLength edges := by
  induction hw generalizing d with
  | nil =>
    rw [walkLength_nil, Nat.add_zero]
    rcases within_append_iff.1 hnode with hsettled | ⟨m, hm, -, hle⟩
    · exact Or.inl hsettled
    · exact Or.inr ⟨m, hm, hle⟩
  | @cons k _ e _ he _ ih =>
    rw [walkLength_cons, ← Nat.add_assoc]
    rcases within_append_iff.1 hnode with ⟨l, hl, hsrc, hle⟩ | ⟨m, hm, -, hle⟩
    · exact ih ((h.followed l hl k e he hsrc.symm).mono (Nat.add_le_add_right hle _))
    · exact Or.inr ⟨m, hm, by omega⟩

/-- No more labels are settled than there are nodes. -/
theorem Searching.length_le (h : g.Searching src settled opened) (hg : g.WellFormed)
    (hsrc : src < g.nodeCount) : settled.length ≤ g.nodeCount := by
  rw [← List.length_map RouteLabel.node, ← List.length_range (n := g.nodeCount)]
  refine (List.Nodup.subperm h.distinct fun i hi => ?_).length_le
  obtain ⟨l, hl, rfl⟩ := List.mem_map.1 hi
  obtain ⟨edges, hwalk, -⟩ := h.attained l (List.mem_append_left _ hl)
  exact List.mem_range.2 (hwalk.dest_lt hg hsrc)

/-- While a node is not settled, a walk to it is no shorter than some open label. -/
theorem Searching.exists_le (h : g.Searching src settled opened)
    (hdest : ∀ l ∈ settled, l.node ≠ dest) (hw : g.Walk src edges dest) :
    ∃ m ∈ opened, m.distance ≤ walkLength edges := by
  rcases h.within_or_le hw h.origin with ⟨l, hl, hnode, -⟩ | hopen
  · exact absurd hnode (hdest l hl)
  · rwa [Nat.zero_add] at hopen

/-! ## The states of a search -/

/-- What is settled, the last label first, and what is open, somewhere between the start of a search
and its end. -/
inductive Passes (g : Graph) (src dest : Nat) : List RouteLabel → List RouteLabel → Prop
  | start : Passes g src dest [] [⟨src, 0, none⟩]
  | settle {settled others : List RouteLabel} {first l : RouteLabel}
    (h : Passes g src dest settled (first :: others)) (hl : l = least first others)
    (hne : l.node ≠ dest) : Passes g src dest (l :: settled)
      (g.follow (l :: settled) l ((first :: others).filter (·.node != l.node)))

/-- The run: the invariant of the search holds in every state. -/
theorem Passes.searching (h : g.Passes src dest settled opened) (hg : g.WellFormed) :
    g.Searching src settled opened := by
  induction h with
  | start => exact Searching.start g src
  | settle _ hl _ ih =>
    subst hl
    exact ih.settle hg (least_mem _ _) fun m => distance_least_le

/-- The search goes on until the node that it looks for is to be settled. -/
theorem Passes.ne_dest (h : g.Passes src dest settled opened) : ∀ l ∈ settled, l.node ≠ dest := by
  induction h with
  | start => exact fun l hl => absurd hl List.not_mem_nil
  | settle _ _ hne ih =>
    rw [List.forall_mem_cons]
    exact ⟨hne, ih⟩

/-- When it is the turn of the node, its label tells its distance. -/
theorem Passes.isDistance {first : RouteLabel} {others : List RouteLabel}
    (h : g.Passes src dest settled (first :: others)) (hg : g.WellFormed)
    (hnode : (least first others).node = dest) :
    g.IsDistance src dest (least first others).distance where
  exists_walk := by
    rw [← hnode]
    exact (h.searching hg).attained _ (List.mem_append_right _ (least_mem first others))
  le_walk := by
    intro edges hw
    obtain ⟨m, hm, hle⟩ := (h.searching hg).exists_le h.ne_dest hw
    exact Nat.le_trans (distance_least_le hm) hle

/-- When nothing is open, no walk leads to the node. -/
theorem Passes.no_walk (h : g.Passes src dest settled []) (hg : g.WellFormed) (edges : List Edge) :
    ¬ g.Walk src edges dest := by
  intro hw
  obtain ⟨m, hm, -⟩ := (h.searching hg).exists_le h.ne_dest hw
  cases hm

end Graph

end TrackPlan
