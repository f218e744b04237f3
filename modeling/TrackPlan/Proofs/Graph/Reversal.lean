import TrackPlan.Graph.Check
import TrackPlan.Proofs.Graph.Adjacency
import TrackPlan.Proofs.Registry.OfRecords

/-!
# Travelling the other way

1. `WellFormed.check_eq_ok_iff`: a well-formed graph passes the checks if reverses come in pairs and
   every edge can be travelled the other way.
2. `Registry.Wires.mirrored`: in the graph of a list of records reverses do come in pairs, and the
   reverse of a branch is a merge, of an entry an exit.
-/

namespace TrackPlan

namespace Graph

variable {g : Graph}

theorem firstFailure_eq_ok_iff {α : Type} {check : α → Option CompileError} {xs : List α} :
    firstFailure check xs = .ok () ↔ ∀ x ∈ xs, check x = none := by
  unfold firstFailure
  cases h : xs.findSome? check with
  | none => simpa using h
  | some e =>
    refine iff_of_false (by simp) fun hnone => ?_
    rw [List.findSome?_eq_none_iff.2 hnone] at h
    cases h

theorem forall_nodes_iff {P : Node → Prop} :
    (∀ n ∈ g.nodes.toList, P n) ↔ ∀ i n, g.node? i = some n → P n := by
  simp only [List.mem_iff_getElem?, Array.getElem?_toList]
  exact ⟨fun h i n hn => h n ⟨i, hn⟩, fun h n ⟨i, hn⟩ => h i n hn⟩

theorem forall_edges_iff {P : Edge → Prop} :
    (∀ e ∈ g.edges.toList, P e) ↔ ∀ k e, g.edge? k = some e → P e := by
  simp only [List.mem_iff_getElem?, Array.getElem?_toList]
  exact ⟨fun h k e he => h e ⟨k, he⟩, fun h e ⟨k, he⟩ => h k e he⟩

/-- Every node is the reverse of its reverse. -/
def Symmetric (g : Graph) : Prop := ∀ i n, g.node? i = some n → g.reverse? n.reverse = some i

/-- What follows a node is followed by it the other way. -/
def Reversible (g : Graph) : Prop :=
  ∀ a b n m, g.node? a = some n → g.node? b = some m → g.Follows a b →
    g.Follows m.reverse n.reverse

theorem Reversible.follows_reverse (h : g.Reversible) {a b a' b' : Nat} (hf : g.Follows a b)
    (ha : g.reverse? a = some a') (hb : g.reverse? b = some b') : g.Follows b' a' := by
  obtain ⟨n, hn, rfl⟩ := Option.map_eq_some_iff.1 ha
  obtain ⟨m, hm, rfl⟩ := Option.map_eq_some_iff.1 hb
  exact h a b n m hn hm hf

/-- Both ways of every branch lead to different nodes. -/
def Forked (g : Graph) : Prop := ∀ i n number straight curved, g.node? i = some n →
  n.kind = .branch number straight curved → straight ≠ curved

theorem WellFormed.checkReverseSymmetry_eq_ok_iff (hg : g.WellFormed) :
    g.checkReverseSymmetry = .ok () ↔ g.Symmetric := by
  unfold checkReverseSymmetry Symmetric
  rw [firstFailure_eq_ok_iff, forall_nodes_iff]
  refine forall_congr' fun i => forall_congr' fun n => imp_congr_right fun hn => ?_
  rw [hg.node_id hn]
  simp

/-- A well-formed graph has no foreign edge. -/
theorem WellFormed.checkEdgeOwnership_eq_ok (hg : g.WellFormed) :
    g.checkEdgeOwnership = .ok () := by
  unfold checkEdgeOwnership
  rw [firstFailure_eq_ok_iff, forall_nodes_iff]
  intro i n hn
  rw [List.findSome?_eq_none_iff]
  intro k hk
  obtain ⟨slot, hslot⟩ := List.getElem?_of_mem hk
  obtain ⟨e, he, hsrc, -⟩ := (hg.slot_iff hn).1 hslot
  simp [he, hsrc, hg.node_id hn]

theorem reverseEdge?_eq {k : Nat} {e : Edge} {n m : Node} (he : g.edge? k = some e)
    (hn : g.node? e.src = some n) (hm : g.node? e.dest = some m) :
    g.reverseEdge? k = g.edgeBetween? m.reverse n.reverse := by
  unfold reverseEdge? reverse?
  simp [he, hn, hm]

theorem WellFormed.checkReversibleEdges_eq_ok_iff (hg : g.WellFormed) :
    g.checkReversibleEdges = .ok () ↔ g.Reversible := by
  unfold checkReversibleEdges Reversible
  rw [firstFailure_eq_ok_iff, forall_edges_iff]
  constructor
  · rintro h a b n m hn hm ⟨k, e, he, rfl, rfl⟩
    rw [← hg.edgeBetween?_isSome_iff, ← reverseEdge?_eq he hn hm]
    have hk := h k e he
    rw [hg.edge_id he] at hk
    cases hr : g.reverseEdge? k with
    | none => simp [hr] at hk
    | some _ => rfl
  · intro h k e he
    obtain ⟨n, hn⟩ := exists_node (hg.src_lt he)
    obtain ⟨m, hm⟩ := exists_node (hg.dest_lt he)
    have hback := hg.edgeBetween?_isSome_iff.2 (h _ _ n m hn hm ⟨k, e, he, rfl, rfl⟩)
    rw [← reverseEdge?_eq he hn hm] at hback
    obtain ⟨back, hback⟩ := Option.isSome_iff_exists.1 hback
    rw [hg.edge_id he, hback]

/-- What the checks say of a well-formed graph. -/
theorem WellFormed.check_eq_ok_iff (hg : g.WellFormed) :
    g.check = .ok () ↔ g.Symmetric ∧ g.Reversible := by
  unfold check
  simp only [bind_eq_ok_iff]
  constructor
  · intro h
    obtain ⟨⟨⟩, hs, ⟨⟩, -, hr⟩ := h
    exact ⟨hg.checkReverseSymmetry_eq_ok_iff.1 hs, hg.checkReversibleEdges_eq_ok_iff.1 hr⟩
  · rintro ⟨hs, hr⟩
    exact ⟨(), hg.checkReverseSymmetry_eq_ok_iff.2 hs, (), hg.checkEdgeOwnership_eq_ok,
      hg.checkReversibleEdges_eq_ok_iff.2 hr⟩

/-! ## Reverses come in pairs -/

/-- Every node has a reverse whose reverse it is, and their tags go together. -/
def Mirrored (g : Graph) : Prop := ∀ i n, g.node? i = some n →
  ∃ m, g.node? n.reverse = some m ∧ m.reverse = i ∧ m.kind.tag = n.kind.tag.opposite

theorem Mirrored.symmetric (h : g.Mirrored) : g.Symmetric := by
  intro i n hn
  obtain ⟨m, hm, hrev, -⟩ := h i n hn
  unfold reverse?
  rw [hm, Option.map_some, hrev]

theorem Mirrored.reverse?_symm (h : g.Mirrored) {i j : Nat} (hij : g.reverse? i = some j) :
    g.reverse? j = some i := by
  obtain ⟨n, hn, rfl⟩ := Option.map_eq_some_iff.1 hij
  exact h.symmetric i n hn

end Graph

/-- The graph of a list of records is mirrored: a dummy is its own reverse, and every other node has
the other half of its record. -/
theorem Registry.Wires.mirrored {r : Registry} {g : Graph} {records : List LineRecord}
    (hw : r.Wires g) (hv : r.Valid) (hh : r.Holds records) : g.Mirrored := by
  intro i n hn
  obtain ⟨d?, hd, hr⟩ := hw.resolved i n hn
  cases d? with
  | none =>
    obtain ⟨-, -, hrev, hkind⟩ := hr
    refine ⟨n, by rw [hrev]; exact hn, hrev, ?_⟩
    rw [hkind]
    rfl
  | some d =>
    obtain ⟨-, -, hrev, hkind⟩ := hr
    have hmem := mem_decls_of_placed hd
    obtain ⟨d', hd', ho⟩ := exists_opposed (hh.decls_eq ▸ hmem)
    obtain ⟨m, hm⟩ := Graph.WellFormed.exists_node (hw.reverse_lt hv hn)
    obtain ⟨e, he, hename⟩ := (hw.lookup_places hv).1 hrev
    -- the name of the reverse is declared once, so its place holds the other half
    obtain rfl : e = d' := List.inj_on_of_nodup_map hv.names_nodup (mem_decls_of_placed he)
      (hh.decls_eq ▸ hd') (by rw [hename, ho.reverse_eq])
    obtain ⟨e?, he', hr'⟩ := hw.resolved _ m hm
    rw [he] at he'
    cases he'
    obtain ⟨-, -, hback, hkind'⟩ := hr'
    refine ⟨m, hm, ?_, ?_⟩
    · rw [ho.reverse_eq', (hw.lookup_places hv).2 ⟨d, hd, rfl⟩] at hback
      exact (Option.some.inj hback).symm
    · rw [hkind'.tag_eq, hkind.tag_eq, ho.tag_eq]

end TrackPlan
