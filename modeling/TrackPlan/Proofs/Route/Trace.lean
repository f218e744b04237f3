import TrackPlan.Proofs.Graph.Outgoing
import TrackPlan.Proofs.Route.Search
import TrackPlan.Route

/-!
# Tracing routes back

What is known of the labels at the end of a search is known of all states that it passes.

1. Every label is that of the start, or its edge leads on from a label settled before it
   (`Passes.founded`). An edge may have no length, so the order in which labels are settled, and not
   their distance, is what keeps the way back from going around.
2. `Traced.traceBack` follows the labels back to the start and meets no node twice.
3. `Passes.distance_le`: a label is at most as far as one longest edge for every settled node. So
   all distances have 64 bits (`WellFormed.bounded_of_passes`).
-/

namespace TrackPlan.Graph

open RouteLabel

variable {g : Graph} {src dest : Nat} {settled opened labels more : List RouteLabel}
  {l : RouteLabel}

/-! ## Where labels come from -/

/-- The label is that of the start, or of an edge that leaves the node of a settled label. -/
def Founded (g : Graph) (src : Nat) (settled : List RouteLabel) (l : RouteLabel) : Prop :=
  l = ⟨src, 0, none⟩ ∨
    ∃ s ∈ settled, ∃ e, g.edge? e.id = some e ∧ e.src = s.node ∧ l = labelAlong s e

theorem Founded.subset (h : g.Founded src settled l) (hs : settled ⊆ more) :
    g.Founded src more l := by
  refine h.imp_right fun h => ?_
  obtain ⟨s, hmem, he⟩ := h
  exact ⟨s, hs hmem, he⟩

/-- Every label is founded on labels behind it, which have been settled before. -/
def Traced (g : Graph) (src : Nat) : List RouteLabel → Prop
  | [] => True
  | l :: earlier => g.Founded src earlier l ∧ g.Traced src earlier

/-- All labels of a search are founded on labels settled earlier. -/
theorem Passes.founded (h : g.Passes src dest settled opened) (hg : g.WellFormed) :
    g.Traced src settled ∧ ∀ m ∈ opened, g.Founded src settled m := by
  induction h with
  | start => exact ⟨trivial, fun m hm => Or.inl (List.mem_singleton.1 hm)⟩
  | @settle settled others first l _ hl _ ih =>
    obtain ⟨htraced, hopened⟩ := ih
    have hlast : g.Founded src settled l := hl ▸ hopened _ (least_mem first others)
    refine ⟨⟨hlast, htraced⟩, fun m hm => ?_⟩
    rcases mem_follow hg hm with ⟨hm, -⟩ | ⟨e, he, hsrc, rfl, -⟩
    · exact (hopened m hm).subset (List.subset_cons_self ..)
    · exact Or.inr ⟨l, List.mem_cons_self, e, he, hsrc, rfl⟩

/-! ## The way back -/

/-- The edges that lead to a node, traced back through settled labels, the last edge first. -/
def traceBack (node : Nat) : List RouteLabel → List Edge
  | [] => []
  | l :: rest =>
    if l.node = node then
      match l.via with
      | some e => e :: traceBack e.src rest
      | none => []
    else traceBack node rest

/-- The nodes along edges that leave the node `a`. -/
def nodesAlong (a : Nat) (edges : List Edge) : List Nat := a :: edges.map Edge.dest

theorem nodesAlong_concat (a : Nat) (edges : List Edge) (e : Edge) :
    nodesAlong a (edges ++ [e]) = nodesAlong a edges ++ [e.dest] := by
  simp [nodesAlong]

/-- The way back from a label leads to the start, is as long as the label says, and passes nodes of
the labels only, none of them twice. -/
theorem Traced.traceBack (h : g.Traced src labels) (hd : (labels.map RouteLabel.node).Nodup)
    (hl : l ∈ labels) :
    let edges := (traceBack l.node labels).reverse
    g.Walk src edges l.node ∧ walkLength edges = l.distance ∧ (nodesAlong src edges).Nodup ∧
      nodesAlong src edges ⊆ labels.map RouteLabel.node := by
  induction labels generalizing l with
  | nil => cases hl
  | cons first earlier ih =>
    obtain ⟨hfirst, hearlier⟩ := h
    rw [List.map_cons, List.nodup_cons] at hd
    obtain ⟨hfresh, hd⟩ := hd
    unfold Graph.traceBack
    dsimp only
    rcases List.mem_cons.1 hl with rfl | hl
    · rw [if_pos rfl]
      rcases hfirst with rfl | ⟨s, hs, e, he, hsrc, rfl⟩
      · exact ⟨.nil src, rfl, by simp [nodesAlong], by simp [nodesAlong]⟩
      · obtain ⟨hwalk, hlength, hnodup, hsubset⟩ := ih hearlier hd hs
        rw [← hsrc] at hwalk hlength hnodup hsubset
        simp only [labelAlong, List.reverse_cons]
        refine ⟨hwalk.concat he, ?_, ?_, ?_⟩
        · simp [hlength]
        · rw [nodesAlong_concat]
          refine List.nodup_append.2 ⟨hnodup, List.nodup_singleton _, fun i hi j hj => ?_⟩
          -- what the edge leads to is new, for its label stands before all nodes passed so far
          rw [List.mem_singleton] at hj
          rintro rfl
          have hpassed := hsubset hi
          rw [hj] at hpassed
          exact hfresh hpassed
        · rw [nodesAlong_concat, List.map_cons]
          refine List.append_subset.2 ⟨fun i hi => List.mem_cons_of_mem _ (hsubset hi), ?_⟩
          simp
    · have hother : first.node ≠ l.node := fun heq => hfresh (heq ▸ List.mem_map_of_mem hl)
      rw [if_neg hother]
      obtain ⟨hwalk, hlength, hnodup, hsubset⟩ := ih hearlier hd hl
      exact ⟨hwalk, hlength, hnodup, fun i hi => List.mem_cons_of_mem _ (hsubset hi)⟩

/-- The start is labelled before any other node. -/
theorem Traced.src_mem (h : g.Traced src labels) (hl : l ∈ labels) :
    (⟨src, 0, none⟩ : RouteLabel) ∈ labels := by
  induction labels generalizing l with
  | nil => cases hl
  | cons first earlier ih =>
    obtain ⟨hfirst, hearlier⟩ := h
    rcases hfirst with rfl | ⟨s, hs, -⟩
    · exact List.mem_cons_self
    · exact List.mem_cons_of_mem _ (ih hearlier hs)

/-- Where the edges of the labels are noted node by node, they are followed back as from label to
label. -/
theorem Traced.edgesBack (h : g.Traced src labels) (hd : (labels.map RouteLabel.node).Nodup)
    {via : Array (Option Nat)} (hvia : ∀ m ∈ labels, via[m.node]? = some (m.via.map Edge.id))
    (hl : l ∈ labels) {rounds : Nat} (hrounds : labels.length ≤ rounds) :
    g.edgesBack src via rounds l.node =
      some ((Graph.traceBack l.node labels).map Edge.id) := by
  induction labels generalizing l rounds with
  | nil => cases hl
  | cons first earlier ih =>
    obtain ⟨hfirst, hearlier⟩ := h
    rw [List.map_cons, List.nodup_cons] at hd
    obtain ⟨hfresh, hd⟩ := hd
    obtain ⟨hhere, hbefore⟩ := List.forall_mem_cons.1 hvia
    rw [List.length_cons] at hrounds
    unfold Graph.traceBack
    rcases List.mem_cons.1 hl with rfl | hl
    · obtain ⟨rounds, rfl⟩ : ∃ k, rounds = k + 1 := ⟨rounds - 1, by omega⟩
      rw [if_pos rfl]
      rcases hfirst with rfl | ⟨s, hs, e, he, hsrc, rfl⟩
      · exact if_pos rfl
      · have hne : e.dest ≠ src := by
          intro heq
          exact hfresh (List.mem_map.2 ⟨_, hearlier.src_mem hs, heq.symm⟩)
        have hback := ih hearlier hd hbefore hs (Nat.le_of_succ_le_succ hrounds)
        rw [← hsrc] at hback
        simp only [labelAlong, Option.map_some] at hhere ⊢
        rw [Graph.edgesBack, if_neg hne, hhere]
        simp [he, hback]
    · have hother : first.node ≠ l.node := fun heq => hfresh (heq ▸ List.mem_map_of_mem hl)
      rw [if_neg hother]
      exact ih hearlier hd hbefore hl (by omega)

/-! ## How far labels are -/

/-- The length of the longest edge there can be. -/
def longestEdge : Nat := UInt32.size - 1

theorem distance_le_longestEdge (e : Edge) : e.distance.toNat ≤ longestEdge :=
  Nat.le_sub_one_of_lt e.distance.toNat_lt

/-- No label is farther than one longest edge for every settled node. -/
theorem Passes.distance_le (h : g.Passes src dest settled opened) (hg : g.WellFormed) :
    ∀ m ∈ settled ++ opened, m.distance ≤ settled.length * longestEdge := by
  induction h with
  | start => simp
  | @settle settled others first l _ hl _ ih =>
    have hlast : l.distance ≤ settled.length * longestEdge :=
      ih l (List.mem_append_right _ (hl ▸ least_mem first others))
    have hmore : (l :: settled).length * longestEdge =
        settled.length * longestEdge + longestEdge := by
      rw [List.length_cons, Nat.add_mul, Nat.one_mul]
    intro m hm
    rw [hmore]
    rw [List.mem_append, List.mem_cons] at hm
    rcases hm with (rfl | hm) | hm
    · omega
    · have := ih m (List.mem_append_left _ hm)
      omega
    · rcases mem_follow hg hm with ⟨hm, -⟩ | ⟨e, -, -, rfl, -⟩
      · have := ih m (List.mem_append_right _ hm)
        omega
      · have := distance_le_longestEdge e
        simp only [labelAlong]
        omega

/-- One longest edge for every settled node, and one more, have room in 64 bits. -/
theorem Passes.room (h : g.Passes src dest settled opened) (hg : g.WellFormed)
    (hcount : g.nodeCount ≤ nodeCeiling) (hsrc : src < g.nodeCount) :
    settled.length * longestEdge + longestEdge < unreached := by
  have hsettled : settled.length ≤ nodeCeiling :=
    Nat.le_trans ((h.searching hg).length_le hg hsrc) hcount
  have hfar : settled.length * longestEdge ≤ nodeCeiling * longestEdge :=
    Nat.mul_le_mul_right longestEdge hsettled
  have hroom : nodeCeiling * longestEdge + longestEdge < unreached := by decide
  omega

/-- The distances that are found, and those to which the edges of settled nodes add up, have 64 bits
and are not taken for that of a node that has not been reached. -/
structure Bounded (g : Graph) (settled opened : List RouteLabel) : Prop where
  distance_lt : ∀ l ∈ settled ++ opened, l.distance < unreached
  sum_lt : ∀ l ∈ settled, ∀ e ∈ g.outgoing l.node, l.distance + e.distance.toNat < unreached

theorem WellFormed.bounded_of_passes (hg : g.WellFormed) (hcount : g.nodeCount ≤ nodeCeiling)
    (hsrc : src < g.nodeCount) (h : g.Passes src dest settled opened) :
    g.Bounded settled opened := by
  have hroom := h.room hg hcount hsrc
  constructor
  · intro l hl
    have := h.distance_le hg l hl
    omega
  · intro l hl e _
    have := h.distance_le hg l (List.mem_append_left _ hl)
    have := distance_le_longestEdge e
    omega

end TrackPlan.Graph
