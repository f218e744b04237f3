import Mathlib.Algebra.BigOperators.Group.List.Basic
import Mathlib.Algebra.GroupWithZero.Nat
import TrackPlan.Graph.Link
import TrackPlan.Proofs.Lists

/-!
# Laying edges

The edges of a node are numbered from the number of successors of all nodes before it, its
`edgeStart`. So the `slot`-th edge of the `i`-th node is edge `edgeStart nodes i + slot`, in the
lists of the nodes (`Numbered`) as in the list of all edges (`edgeEnds_eq_some_iff`).
-/

namespace TrackPlan

variable {nodes : List Node} {i j k slot : Nat} {n m : Node}

/-- The number of the first edge of a node. -/
def edgeStart (nodes : List Node) (i : Nat) : Nat :=
  ((nodes.take i).map fun n => n.kind.successors.length).sum

@[simp] theorem edgeStart_zero (nodes : List Node) : edgeStart nodes 0 = 0 := rfl

theorem edgeStart_cons_succ (n : Node) (nodes : List Node) (i : Nat) :
    edgeStart (n :: nodes) (i + 1) = n.kind.successors.length + edgeStart nodes i := by
  unfold edgeStart
  rw [List.take_succ_cons, List.map_cons, List.sum_cons]

theorem edgeStart_succ (h : nodes[i]? = some n) :
    edgeStart nodes (i + 1) = edgeStart nodes i + n.kind.successors.length := by
  unfold edgeStart
  rw [List.take_add_one, h, Option.toList_some, List.map_append, List.sum_append]
  simp

theorem edgeStart_mono (nodes : List Node) (h : i ≤ j) :
    edgeStart nodes i ≤ edgeStart nodes j := by
  obtain ⟨t, rfl⟩ := Nat.exists_eq_add_of_le h
  unfold edgeStart
  rw [List.take_add, List.map_append, List.sum_append]
  exact Nat.le_add_right _ _

/-- The edges of a node are numbered before those of any later node. -/
theorem edgeStart_add_lt (hi : nodes[i]? = some n) (hs : slot < n.kind.successors.length)
    (h : i < j) : edgeStart nodes i + slot < edgeStart nodes j := by
  have := edgeStart_mono nodes (Nat.succ_le_of_lt h)
  rw [Nat.succ_eq_add_one, edgeStart_succ hi] at this
  omega

/-- Every node lists its edges by their numbers. -/
def Numbered (nodes : List Node) : Prop :=
  ∀ i n, nodes[i]? = some n →
    n.edges = List.range' (edgeStart nodes i) n.kind.successors.length

theorem length_numberEdges (next : Nat) (nodes : List Node) :
    (numberEdges next nodes).length = nodes.length := by
  induction nodes generalizing next with
  | nil => rfl
  | cons n rest ih =>
    unfold numberEdges
    rw [List.length_cons, ih, List.length_cons]

theorem getElem?_numberEdges (next : Nat) (nodes : List Node) (i : Nat) :
    (numberEdges next nodes)[i]? = nodes[i]?.map fun n =>
      { n with edges := List.range' (next + edgeStart nodes i) n.kind.successors.length } := by
  induction nodes generalizing next i with
  | nil => rfl
  | cons n rest ih =>
    cases i with
    | zero => rfl
    | succ i =>
      unfold numberEdges
      rw [List.getElem?_cons_succ, List.getElem?_cons_succ, ih, edgeStart_cons_succ,
        Nat.add_assoc]

theorem edgeStart_numberEdges (next : Nat) (nodes : List Node) (i : Nat) :
    edgeStart (numberEdges next nodes) i = edgeStart nodes i := by
  induction nodes generalizing next i with
  | nil => rfl
  | cons n rest ih =>
    cases i with
    | zero => rfl
    | succ i =>
      unfold numberEdges
      rw [edgeStart_cons_succ, edgeStart_cons_succ, ih]

theorem numbered_numberEdges (nodes : List Node) : Numbered (numberEdges 0 nodes) := by
  intro i n h
  rw [getElem?_numberEdges] at h
  obtain ⟨n, -, rfl⟩ := Option.map_eq_some_iff.1 h
  rw [edgeStart_numberEdges, Nat.zero_add]

/-! ## The list of all edges -/

/-- The edges of one node. -/
def Node.ends (n : Node) : List (Nat × Nat × Nat) :=
  n.kind.successors.zipIdx.map fun x => (n.id, x.2, x.1)

theorem edgeEnds_cons (n : Node) (rest : List Node) :
    edgeEnds (n :: rest) = n.ends ++ edgeEnds rest := rfl

theorem Node.length_ends (n : Node) : n.ends.length = n.kind.successors.length := by
  unfold ends
  rw [List.length_map, List.length_zipIdx]

theorem Node.ends_eq_some_iff {src dest : Nat} : n.ends[k]? = some (src, slot, dest) ↔
    n.id = src ∧ n.kind.successors[slot]? = some dest ∧ k = slot := by
  unfold ends
  rw [List.getElem?_map, List.getElem?_zipIdx]
  cases h : n.kind.successors[k]? with
  | none =>
    simp only [Option.map_none, reduceCtorEq, false_iff]
    rintro ⟨-, hs, rfl⟩
    rw [h] at hs
    cases hs
  | some d =>
    simp only [Option.map_some, Option.some.injEq, Prod.mk.injEq, Nat.zero_add]
    constructor
    · rintro ⟨rfl, rfl, rfl⟩
      exact ⟨rfl, h, rfl⟩
    · rintro ⟨rfl, hs, rfl⟩
      rw [h] at hs
      exact ⟨rfl, rfl, Option.some.inj hs⟩

/-- The list of all edges, entry by entry. -/
theorem edgeEnds_eq_some_iff {src dest : Nat} : (edgeEnds nodes)[k]? = some (src, slot, dest) ↔
    ∃ i n, nodes[i]? = some n ∧ n.id = src ∧ n.kind.successors[slot]? = some dest ∧
      k = edgeStart nodes i + slot := by
  induction nodes generalizing k with
  | nil => simp [edgeEnds]
  | cons n rest ih =>
    -- the edges of the other nodes stand behind those of the first
    have hrest : (∃ i m, rest[i]? = some m ∧ m.id = src ∧ m.kind.successors[slot]? = some dest ∧
        k = edgeStart (n :: rest) (i + 1) + slot) ↔
        n.ends.length ≤ k ∧ (edgeEnds rest)[k - n.ends.length]? = some (src, slot, dest) := by
      rw [ih, n.length_ends]
      simp only [edgeStart_cons_succ]
      constructor
      · intro h
        obtain ⟨i, m, hm, hid, hs, rfl⟩ := h
        exact ⟨by omega, i, m, hm, hid, hs, by omega⟩
      · intro h
        obtain ⟨hk, i, m, hm, hid, hs, heq⟩ := h
        exact ⟨i, m, hm, hid, hs, by omega⟩
    rw [edgeEnds_cons, exists_getElem?_cons_iff, hrest, edgeStart_zero, Nat.zero_add,
      ← Node.ends_eq_some_iff]
    rcases Nat.lt_or_ge k n.ends.length with hk | hk
    · rw [List.getElem?_append_left hk, or_iff_left fun h => absurd h.1 (Nat.not_le.2 hk)]
    · rw [List.getElem?_append_right hk, List.getElem?_eq_none hk, and_iff_right hk]
      simp

/-- The laid edges, one by one. -/
theorem layEdges_eq_some_iff {nodes : Array Node} {k : Nat} {e : Edge} :
    (layEdges nodes)[k]? = some e ↔
      ∃ src slot dest, (edgeEnds nodes.toList)[k]? = some (src, slot, dest) ∧
        ⟨k, src, dest, slot, reverseKind nodes src dest, 0⟩ = e := by
  unfold layEdges
  rw [List.getElem?_toArray, List.getElem?_map, List.getElem?_zipIdx]
  cases (edgeEnds nodes.toList)[k]? with
  | none => simp
  | some ends =>
    obtain ⟨src, slot, dest⟩ := ends
    simp only [Option.map_some, Option.some.injEq, Prod.mk.injEq, Nat.zero_add]
    constructor
    · rintro rfl
      exact ⟨src, slot, dest, ⟨rfl, rfl, rfl⟩, rfl⟩
    · intro h
      obtain ⟨_, _, _, ⟨rfl, rfl, rfl⟩, rfl⟩ := h
      rfl

end TrackPlan
