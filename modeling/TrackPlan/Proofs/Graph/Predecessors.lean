import Mathlib.Data.Set.Insert
import TrackPlan.Proofs.Compile

/-!
# What leads into a node

Nothing looks at the edges that lead into a node. What they are follows from two facts about a
compiled track: reverses come in pairs (`Registry.Wires.mirrored`), and every edge can be travelled
the other way (`Graph.WellFormed.check_eq_ok_iff`). So a node is preceded by the reverses of the
successors of its reverse, and the kind of the reverse says how many these are.
-/

namespace TrackPlan.Graph

variable {g : Graph} {a b i : Nat} {n m : Node}

/-- The nodes from which an edge leads to the given one. -/
def predecessors (g : Graph) (id : Nat) : Set Nat := {x | g.Follows x id}

/-- What leads into the nodes of a graph. -/
structure PredecessorLaw (g : Graph) : Prop where
  /-- One node follows another if the reverses follow each other the other way. -/
  follows_iff : ∀ {a b n m}, g.node? a = some n → g.node? b = some m →
    (g.Follows a b ↔ g.Follows m.reverse n.reverse)
  /-- A node is preceded by the reverses of the successors of its reverse. -/
  predecessors_eq : ∀ {i n}, g.node? i = some n → ∃ m, g.node? n.reverse = some m ∧
    g.predecessors i = {x | ∃ s ∈ m.kind.successors, g.reverse? s = some x}
  /-- Nothing leads into an entry or a dummy. -/
  eq_empty : ∀ {i n}, g.node? i = some n → n.kind.tag ∈ [Tag.enter, .dummy] →
    g.predecessors i = ∅
  /-- A node that is no merge has one predecessor. -/
  exists_eq_singleton : ∀ {i n}, g.node? i = some n →
    n.kind.tag ∈ [Tag.sensor, .separator, .exit, .branch] → ∃ x, g.predecessors i = {x}
  /-- A merge is reached from both ways of its branch. -/
  exists_eq_pair : ∀ {i n}, g.node? i = some n → n.kind.tag = .merge →
    ∃ m number straight curved x y, g.node? n.reverse = some m ∧
      m.kind = .branch number straight curved ∧ g.reverse? straight = some x ∧
        g.reverse? curved = some y ∧ g.predecessors i = {x, y}

theorem reverse?_eq_some_iff {x : Nat} :
    g.reverse? i = some x ↔ ∃ n, g.node? i = some n ∧ n.reverse = x := by
  unfold reverse?
  rw [Option.map_eq_some_iff]

theorem Mirrored.follows_reverse_iff (hm : g.Mirrored) (hr : g.Reversible) (ha : g.node? a = some n)
    (hb : g.node? b = some m) : g.Follows a b ↔ g.Follows m.reverse n.reverse := by
  refine ⟨hr a b n m ha hb, fun h => ?_⟩
  obtain ⟨n', hn', hna, -⟩ := hm a n ha
  obtain ⟨m', hm', hmb, -⟩ := hm b m hb
  have := hr m.reverse n.reverse m' n' hm' hn' h
  rwa [hna, hmb] at this

theorem WellFormed.predecessors_eq (hg : g.WellFormed) (hm : g.Mirrored) (hr : g.Reversible)
    (hi : g.node? i = some n) (hrev : g.node? n.reverse = some m) :
    g.predecessors i = {x | ∃ s ∈ m.kind.successors, g.reverse? s = some x} := by
  ext x
  simp only [predecessors, Set.mem_ofPred_eq, reverse?_eq_some_iff]
  constructor
  · intro h
    obtain ⟨p, hp⟩ := exists_node (Follows.src_lt hg h)
    obtain ⟨q, hq, hqx, -⟩ := hm x p hp
    have hback := (hm.follows_reverse_iff hr hp hi).1 h
    exact ⟨p.reverse, (hg.follows_iff hrev).1 hback, q, hq, hqx⟩
  · intro hx
    obtain ⟨s, hs, q, hq, rfl⟩ := hx
    obtain ⟨m', hm', hback, -⟩ := hm i n hi
    have hfollows := (hg.follows_iff hrev).2 hs
    have := hr n.reverse s m q hrev hq hfollows
    rw [hrev] at hm'
    cases hm'
    rwa [hback] at this

/-- The reverse of each successor is a node. -/
theorem WellFormed.exists_reverse (hg : g.WellFormed) (hn : g.node? i = some n) {s : Nat}
    (hs : s ∈ n.kind.successors) : ∃ x, g.reverse? s = some x := by
  obtain ⟨p, hp⟩ := exists_node (Follows.dest_lt hg ((hg.follows_iff hn).2 hs))
  exact ⟨p.reverse, reverse?_eq_some_iff.2 ⟨p, hp, rfl⟩⟩

/-- A well-formed graph in which everything can be travelled the other way obeys the law. -/
theorem WellFormed.predecessorLaw (hg : g.WellFormed) (hm : g.Mirrored) (hr : g.Reversible) :
    g.PredecessorLaw where
  follows_iff := hm.follows_reverse_iff hr
  predecessors_eq := by
    intro i n hi
    obtain ⟨m, hrev, -⟩ := hm i n hi
    exact ⟨m, hrev, hg.predecessors_eq hm hr hi hrev⟩
  eq_empty := by
    intro i n hi ht
    obtain ⟨m, hrev, -, htag⟩ := hm i n hi
    rw [hg.predecessors_eq hm hr hi hrev]
    -- the reverse is an exit or a dummy, and nothing follows it
    have hs : m.kind.successors = [] := by
      rw [← List.length_eq_zero_iff, Kind.length_successors, htag]
      simp only [List.mem_cons, List.not_mem_nil, or_false] at ht
      rcases ht with ht | ht <;> rw [ht] <;> rfl
    simp [hs]
  exists_eq_singleton := by
    intro i n hi ht
    obtain ⟨m, hrev, -, htag⟩ := hm i n hi
    rw [hg.predecessors_eq hm hr hi hrev]
    have hs : m.kind.successors.length = 1 := by
      rw [Kind.length_successors, htag]
      simp only [List.mem_cons, List.not_mem_nil, or_false] at ht
      rcases ht with ht | ht | ht | ht <;> rw [ht] <;> rfl
    obtain ⟨s, hs⟩ := List.length_eq_one_iff.1 hs
    obtain ⟨x, hx⟩ := hg.exists_reverse hrev (s := s) (by simp [hs])
    refine ⟨x, Set.ext fun y => ?_⟩
    simp [hs, hx, eq_comm]
  exists_eq_pair := by
    intro i n hi ht
    obtain ⟨m, hrev, -, htag⟩ := hm i n hi
    rw [hg.predecessors_eq hm hr hi hrev]
    rw [ht] at htag
    obtain ⟨number, straight, curved, hk⟩ :
        ∃ number straight curved, m.kind = .branch number straight curved := by
      revert htag
      cases m.kind <;> simp [Kind.tag, Tag.opposite]
    have hs : m.kind.successors = [straight, curved] := by rw [hk]; rfl
    obtain ⟨x, hx⟩ := hg.exists_reverse hrev (s := straight) (by simp [hs])
    obtain ⟨y, hy⟩ := hg.exists_reverse hrev (s := curved) (by simp [hs])
    refine ⟨m, number, straight, curved, x, y, hrev, hk, hx, hy, Set.ext fun z => ?_⟩
    simp [hs, hx, hy, eq_comm]

end TrackPlan.Graph

namespace TrackPlan

/-- **Predecessors.** Every compiled track obeys the law of predecessors. -/
theorem predecessorLaw_of_compile {text : String} {o : Options} {t : Track}
    (h : (compile text o).result = .ok t) : t.graph.PredecessorLaw := by
  obtain ⟨r, records, hd, hcheck⟩ := exists_draws_of_compile h
  exact hd.wellFormed.predecessorLaw hd.mirrored (hd.wellFormed.check_eq_ok_iff.1 hcheck).2

/-- A switch between three ends of the track. -/
theorem predecessorLaw_threeEnds : ∃ t, (compile
    "enter E -> B @ X\nswitch B : 1 -> X1/(X2) @ M -> X\nenter E1 -> M @ X1\nenter E2 -> M @ X2"
    {}).result = .ok t ∧ t.graph.nodeCount = 8 ∧ t.graph.PredecessorLaw := by
  have h : ((compile
      "enter E -> B @ X\nswitch B : 1 -> X1/(X2) @ M -> X\nenter E1 -> M @ X1\nenter E2 -> M @ X2"
      {}).result.toOption.map (·.graph.nodeCount)) = some 8 := by
    decide +kernel
  obtain ⟨t, ht, hcount⟩ := Option.map_eq_some_iff.1 h
  have ht : (compile
      "enter E -> B @ X\nswitch B : 1 -> X1/(X2) @ M -> X\nenter E1 -> M @ X1\nenter E2 -> M @ X2"
      {}).result = .ok t := by
    revert ht
    cases (compile _ _).result <;> simp [Except.toOption]
  exact ⟨t, ht, hcount, predecessorLaw_of_compile ht⟩

end TrackPlan
