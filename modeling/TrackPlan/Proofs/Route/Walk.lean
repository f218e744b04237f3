import TrackPlan.Proofs.Graph.Adjacency

/-!
# Walks

A walk follows edges, each from where the one before it leads to; nodes and edges may occur more
than once. What a search for routes finds is measured against all walks between two nodes
(`Graph.IsDistance`).
-/

namespace TrackPlan

/-- The length of a walk along the edges, in millimeters. -/
def walkLength (edges : List Edge) : Nat := (edges.map fun e => e.distance.toNat).sum

@[simp] theorem walkLength_nil : walkLength [] = 0 := rfl

@[simp] theorem walkLength_cons (e : Edge) (edges : List Edge) :
    walkLength (e :: edges) = e.distance.toNat + walkLength edges := by
  simp [walkLength]

@[simp] theorem walkLength_append (edges more : List Edge) :
    walkLength (edges ++ more) = walkLength edges + walkLength more := by
  simp [walkLength]

namespace Graph

/-- The edges lead from one node to another. -/
inductive Walk (g : Graph) : Nat → List Edge → Nat → Prop
  | nil (a : Nat) : Walk g a [] a
  | cons {k b : Nat} {e : Edge} {rest : List Edge} (he : g.edge? k = some e)
    (hrest : Walk g e.dest rest b) : Walk g e.src (e :: rest) b

/-- The length of the shortest walks from one node to another. -/
structure IsDistance (g : Graph) (a b d : Nat) : Prop where
  exists_walk : ∃ edges, g.Walk a edges b ∧ walkLength edges = d
  le_walk : ∀ edges, g.Walk a edges b → d ≤ walkLength edges

variable {g : Graph} {a b c d d' k : Nat} {e : Edge} {edges more : List Edge}

theorem Walk.append (h : g.Walk a edges b) (h' : g.Walk b more c) :
    g.Walk a (edges ++ more) c := by
  induction h with
  | nil => exact h'
  | cons he _ ih => exact .cons he (ih h')

theorem Walk.concat (h : g.Walk a edges e.src) (he : g.edge? k = some e) :
    g.Walk a (edges ++ [e]) e.dest :=
  h.append (.cons he (.nil e.dest))

/-- A walk stays in the graph. -/
theorem Walk.dest_lt (h : g.Walk a edges b) (hg : g.WellFormed) (ha : a < g.nodeCount) :
    b < g.nodeCount := by
  induction h with
  | nil => exact ha
  | cons he _ ih => exact ih (hg.dest_lt he)

/-- There is one distance between two nodes at most. -/
theorem IsDistance.unique (h : g.IsDistance a b d) (h' : g.IsDistance a b d') : d = d' := by
  obtain ⟨edges, hw, rfl⟩ := h.exists_walk
  obtain ⟨edges', hw', rfl⟩ := h'.exists_walk
  exact Nat.le_antisymm (h.le_walk edges' hw') (h'.le_walk edges hw)

end Graph

end TrackPlan
