import TrackPlan.Graph.Basic

/-!
# Closed sets of edges

Two rules say which edges must not be reserved apart: an edge and its reverse edge belong together,
and so do the edges that leave one branch. A set is closed if it obeys both rules; `close` adds the
edges that the rules demand until there are no more. Edge sets are ascending lists without
repetitions.
-/

namespace TrackPlan

/-- A set of edges, as an ascending list. -/
abbrev EdgeSet := List Nat

namespace EdgeSet

/-- The set with one more edge. -/
def insert (edge : Nat) : EdgeSet → EdgeSet
  | [] => [edge]
  | e :: rest =>
    if edge < e then edge :: e :: rest
    else if edge = e then e :: rest
    else e :: insert edge rest

/-- The set of the listed edges. -/
def ofList (edges : List Nat) : EdgeSet := edges.foldl (fun s e => insert e s) []

/-- The edges of both sets. -/
def union (s t : EdgeSet) : EdgeSet := t.foldl (fun s e => insert e s) s

/-- Whether the sets share an edge. -/
def overlaps (s t : EdgeSet) : Bool := s.any t.contains

/-- Whether the edge is in the set, looked up by halves. -/
def bisect (edge : Nat) (s : EdgeSet) : Bool :=
  match h : s.drop (s.length / 2) with
  | [] => false
  | middle :: upper =>
    if edge < middle then bisect edge (s.take (s.length / 2))
    else if edge = middle then true
    else bisect edge upper
termination_by s.length
decreasing_by
  all_goals
    have hlength := congrArg List.length h
    simp only [List.length_drop, List.length_cons, List.length_take] at hlength ⊢
    omega

theorem mem_insert {a edge : Nat} {s : EdgeSet} : a ∈ insert edge s ↔ a = edge ∨ a ∈ s := by
  induction s with
  | nil => simp [insert]
  | cons e rest ih =>
    unfold insert
    split
    · simp
    · split
      · next h => simp [h]
      · simp only [List.mem_cons, ih]; exact or_left_comm

theorem mem_union {a : Nat} {s t : EdgeSet} : a ∈ union s t ↔ a ∈ s ∨ a ∈ t := by
  unfold union
  induction t generalizing s with
  | nil => simp
  | cons e rest ih => simp only [List.foldl_cons, ih, mem_insert, List.mem_cons]; grind

theorem mem_ofList {a : Nat} {edges : List Nat} : a ∈ ofList edges ↔ a ∈ edges := by
  show a ∈ union [] edges ↔ a ∈ edges
  simp [mem_union]

theorem overlaps_iff {s t : EdgeSet} : overlaps s t = true ↔ ∃ e, e ∈ s ∧ e ∈ t := by
  simp [overlaps]

/-- An inserted edge keeps the list ascending. -/
theorem pairwise_insert {edge : Nat} {s : EdgeSet} (h : s.Pairwise (· < ·)) :
    (insert edge s).Pairwise (· < ·) := by
  induction s with
  | nil => simp [insert]
  | cons e rest ih =>
    rw [List.pairwise_cons] at h
    unfold insert
    split
    next hlt =>
      refine List.pairwise_cons.2 ⟨fun a ha => ?_, List.pairwise_cons.2 h⟩
      rcases List.mem_cons.1 ha with rfl | ha
      · exact hlt
      · exact Nat.lt_trans hlt (h.1 a ha)
    next hle =>
      split
      · exact List.pairwise_cons.2 h
      · refine List.pairwise_cons.2 ⟨fun a ha => ?_, ih h.2⟩
        rcases mem_insert.1 ha with rfl | ha
        · omega
        · exact h.1 a ha

theorem pairwise_union {s t : EdgeSet} (h : s.Pairwise (· < ·)) :
    (union s t).Pairwise (· < ·) := by
  unfold union
  induction t generalizing s with
  | nil => exact h
  | cons e rest ih => exact ih (pairwise_insert h)

theorem pairwise_ofList (edges : List Nat) : (ofList edges).Pairwise (· < ·) :=
  pairwise_union List.Pairwise.nil

/-- In an ascending list, a look-up by halves finds every edge. -/
theorem bisect_iff {edge : Nat} {s : EdgeSet} (h : s.Pairwise (· < ·)) :
    bisect edge s = true ↔ edge ∈ s := by
  fun_induction bisect edge s with
  | case1 s hnil =>
    rw [List.drop_eq_nil_iff] at hnil
    have hs : s = [] := List.eq_nil_of_length_eq_zero (by omega)
    simp [hs]
  | case2 s middle upper hdrop hlt ih =>
    have hsplit := List.take_append_drop (s.length / 2) s
    rw [hdrop] at hsplit
    rw [← hsplit, List.pairwise_append] at h
    obtain ⟨hlower, hhigher, -⟩ := h
    -- nothing from the middle on is below it
    have habove : edge ∉ middle :: upper := by
      rw [List.mem_cons, not_or]
      exact ⟨Nat.ne_of_lt hlt, fun hmem =>
        Nat.lt_asymm hlt ((List.pairwise_cons.1 hhigher).1 edge hmem)⟩
    have hmem : edge ∈ s ↔ edge ∈ s.take (s.length / 2) ∨ edge ∈ middle :: upper := by
      rw [← List.mem_append, hsplit]
    rw [ih hlower, hmem, or_iff_left habove]
  | case3 s upper hdrop _ =>
    refine iff_of_true rfl (List.mem_of_mem_drop (i := s.length / 2) ?_)
    rw [hdrop]
    exact List.mem_cons_self
  | case4 s middle upper hdrop hnot hne ih =>
    have hsplit := List.take_append_drop (s.length / 2) s
    rw [hdrop] at hsplit
    rw [← hsplit, List.pairwise_append] at h
    obtain ⟨-, hhigher, hacross⟩ := h
    -- nothing before the middle is above it
    have hbelow : edge ∉ s.take (s.length / 2) := fun hmem =>
      hnot (hacross edge hmem middle List.mem_cons_self)
    have hmem : edge ∈ s ↔ edge ∈ s.take (s.length / 2) ∨ edge ∈ middle :: upper := by
      rw [← List.mem_append, hsplit]
    rw [ih (List.pairwise_cons.1 hhigher).2, hmem, or_iff_right hbelow, List.mem_cons,
      or_iff_right hne]

end EdgeSet

namespace Graph

/-- The edges that the two rules demand beside one edge. -/
def companions (g : Graph) (edge : Nat) : List Nat :=
  let siblings :=
    match g.edge? edge with
    | some e => if g.isBranch e.src then g.siblings edge else []
    | none => []
  (g.reverseEdge? edge).toList ++ siblings

/-- The set and the companions of its members. -/
def expand (g : Graph) (s : EdgeSet) : EdgeSet := EdgeSet.union s (s.flatMap g.companions)

theorem mem_expand {g : Graph} {s : EdgeSet} {a : Nat} :
    a ∈ g.expand s ↔ a ∈ s ∨ ∃ e ∈ s, a ∈ g.companions e := by
  simp [expand, EdgeSet.mem_union]

/-- Whether the set has all companions of its members. -/
def isClosed (g : Graph) (s : EdgeSet) : Bool := (g.expand s).length == s.length

/-- Expands the set until nothing is new, at most `rounds` times. -/
def closeWithin (g : Graph) : (rounds : Nat) → EdgeSet → EdgeSet
  | 0, s => s
  | rounds + 1, s => if g.isClosed s then s else g.closeWithin rounds (g.expand s)

/-- The least closed set around the given one. Each round but the last adds an edge of the graph,
so there are no more rounds than edges. -/
def close (g : Graph) (s : EdgeSet) : EdgeSet := g.closeWithin g.edgeCount s

end Graph

end TrackPlan
