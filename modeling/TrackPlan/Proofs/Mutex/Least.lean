import Mathlib.Data.List.Sort
import Mathlib.Logic.Function.Iterate
import Mathlib.Order.Bounds.Defs
import TrackPlan.Proofs.Mutex.Sealed

/-!
# Closing is least

Expanding a set of edges round by round comes to rest, and where it does is the least closed set
around the given one. Numbers of no edge stay in the set and demand nothing.

1. `WellFormed.isClosed_iff_closed`: the test by lengths is the test by the two rules.
2. `WellFormed.restsAt_close`: the bound on the rounds is never what stops them.
3. `WellFormed.isLeast_close`: the result is least. What follows from that for a set and a larger
   one (`WellFormed.close_subset_close`) and for two sets (`WellFormed.close_union`) comes after.
-/

namespace TrackPlan

namespace Graph

variable {g : Graph} {s t : EdgeSet} {c : Set Nat} {seed : Nat → Prop} {e : Nat}

/-- A set is found closed if it obeys both rules, and not otherwise. -/
theorem WellFormed.isClosed_iff_closed (hg : g.WellFormed) (hs : s.Ascending) :
    g.isClosed s = true ↔ g.Closed {e | e ∈ s} := by
  rw [isClosed_iff hs]
  simp only [hg.mem_companions_iff]
  constructor
  · intro h
    exact ⟨fun hj hr => h _ hj _ (Or.inl hr), fun hj hsib => h _ hj _ (Or.inr hsib)⟩
  · rintro h e he f (hr | hsib)
    · exact h.reverse he hr
    · exact h.sibling he hsib

/-! ## The rounds -/

/-- Expanding the one set comes to rest at the other: so it is after some rounds, and a further
round adds nothing, as it did not after fewer. -/
def RestsAt (g : Graph) (s t : EdgeSet) : Prop :=
  ∃ n, g.expand^[n] s = t ∧ g.isClosed t = true ∧
    ∀ m < n, ¬ g.isClosed (g.expand^[m] s) = true

theorem exists_iterate_closeWithin (rounds : Nat) (g : Graph) (s : EdgeSet) :
    ∃ n, g.expand^[n] s = g.closeWithin rounds s ∧
      ∀ m < n, ¬ g.isClosed (g.expand^[m] s) = true := by
  induction rounds generalizing s with
  | zero => exact ⟨0, rfl, fun m hm => absurd hm (Nat.not_lt_zero m)⟩
  | succ rounds ih =>
    unfold closeWithin
    split
    · exact ⟨0, rfl, fun m hm => absurd hm (Nat.not_lt_zero m)⟩
    · next hopen =>
      obtain ⟨n, hn, hbefore⟩ := ih (g.expand s)
      refine ⟨n + 1, hn, fun m hm => ?_⟩
      cases m with
      | zero => exact hopen
      | succ m => exact hbefore m (Nat.lt_of_succ_lt_succ hm)

theorem WellFormed.isClosed_close (hg : g.WellFormed) (hs : s.Ascending) :
    g.isClosed (g.close s) = true := hg.isClosed_closeWithin hs missing_le

/-- The rounds come to rest by themselves, and closing gives what they come to. -/
theorem WellFormed.restsAt_close (hg : g.WellFormed) (hs : s.Ascending) :
    g.RestsAt s (g.close s) := by
  obtain ⟨n, hn, hbefore⟩ := exists_iterate_closeWithin g.edgeCount g s
  exact ⟨n, hn, hg.isClosed_close hs, hbefore⟩

theorem ascending_close (hs : s.Ascending) : (g.close s).Ascending := ascending_closeWithin hs

/-! ## The result -/

/-- What the rules demand around a seed is in every closed set around it. -/
theorem Closure.mem_of_closed (h : g.Closure seed e) (hc : g.Closed c)
    (hseed : ∀ e, seed e → e ∈ c) : e ∈ c := by
  induction h with
  | seed h => exact hseed _ h
  | reverse _ hr ih => exact hc.reverse ih hr
  | sibling _ hs ih => exact hc.sibling ih hs

/-- Closing a set gives the least closed set around it. -/
theorem WellFormed.isLeast_close (hg : g.WellFormed) (hs : s.Ascending) :
    IsLeast {c : Set Nat | g.Closed c ∧ {e | e ∈ s} ⊆ c} {e | e ∈ g.close s} := by
  refine ⟨⟨?_, fun e he => subset_closeWithin he⟩, fun c hc e he => ?_⟩
  · exact (hg.isClosed_iff_closed (ascending_close hs)).1 (hg.isClosed_close hs)
  · exact ((hg.mem_close_iff hs).1 he).mem_of_closed hc.1 fun _ hmem => hc.2 hmem

/-- A closed set is left as it is. -/
theorem close_of_isClosed (h : g.isClosed s = true) : g.close s = s := by
  unfold close
  cases g.edgeCount with
  | zero => rfl
  | succ rounds => rw [closeWithin, if_pos h]

theorem WellFormed.close_close (hg : g.WellFormed) (hs : s.Ascending) :
    g.close (g.close s) = g.close s := close_of_isClosed (hg.isClosed_close hs)

/-- Closing a set is within closing a larger one. -/
theorem WellFormed.close_subset_close (hg : g.WellFormed) (hs : s.Ascending) (ht : t.Ascending)
    (h : s ⊆ t) : g.close s ⊆ g.close t := by
  obtain ⟨hclosed, hseed⟩ := (hg.isLeast_close ht).1
  exact fun e he => (hg.isLeast_close hs).2 ⟨hclosed, fun _ hmem => hseed (h hmem)⟩ he

/-- The rules speak of one edge at a time, so closed sets together are closed. -/
theorem Closed.union {d : Set Nat} (hc : g.Closed c) (hd : g.Closed d) : g.Closed (c ∪ d) where
  reverse hj hr := hj.imp (hc.reverse · hr) (hd.reverse · hr)
  sibling hj hs := hj.imp (hc.sibling · hs) (hd.sibling · hs)

/-- Two sets may be closed one by one. -/
theorem WellFormed.close_union (hg : g.WellFormed) (hs : s.Ascending) (ht : t.Ascending) :
    g.close (s.union t) = (g.close s).union (g.close t) := by
  have hst := EdgeSet.ascending_union (t := t) hs
  refine List.Pairwise.eq_of_mem_iff (ascending_close hst)
    (EdgeSet.ascending_union (ascending_close hs)) fun e => ?_
  rw [EdgeSet.mem_union]
  constructor
  · obtain ⟨hclosed, hseed⟩ := (hg.isLeast_close hs).1
    obtain ⟨hclosed', hseed'⟩ := (hg.isLeast_close ht).1
    refine fun he => (hg.isLeast_close hst).2 ⟨hclosed.union hclosed', fun f hf => ?_⟩ he
    exact (EdgeSet.mem_union.1 hf).imp (hseed ·) (hseed' ·)
  · rintro (he | he)
    · exact hg.close_subset_close hs hst (fun f hf => EdgeSet.mem_union.2 (Or.inl hf)) he
    · exact hg.close_subset_close ht hst (fun f hf => EdgeSet.mem_union.2 (Or.inr hf)) he

end Graph

/-- **Closing.** On a linked graph, any set of numbers comes to rest when it is expanded round by
round, and closing it gives what it comes to: the least set around it that obeys both rules. So
closing twice is closing once, a larger set is closed to a larger one, and two sets may be closed
one by one. -/
theorem Registry.Reachable.closing_of_link {r : Registry} {o : Options} {g : Graph}
    (hr : r.Reachable) (h : (r.link o).result = .ok g) {s t : EdgeSet} (hs : s.Ascending)
    (ht : t.Ascending) :
    g.RestsAt s (g.close s) ∧ (g.close s).Ascending ∧
      IsLeast {c : Set Nat | g.Closed c ∧ {e | e ∈ s} ⊆ c} {e | e ∈ g.close s} ∧
      (g.isClosed s = true ↔ g.Closed {e | e ∈ s}) ∧
      g.close (g.close s) = g.close s ∧ (s ⊆ t → g.close s ⊆ g.close t) ∧
      g.close (s.union t) = (g.close s).union (g.close t) := by
  have hg := (wires_of_link h).wellFormed hr.valid
  exact ⟨hg.restsAt_close hs, Graph.ascending_close hs, hg.isLeast_close hs,
    hg.isClosed_iff_closed hs, hg.close_close hs, hg.close_subset_close hs ht,
    hg.close_union hs ht⟩

/-- The siding without sensors has eight edges, and 9 is the number of none. -/
theorem closing_bareSiding : ∃ (r : Registry) (g : Graph), r.Reachable ∧
    (r.link {}).result = .ok g ∧ g.edgeCount = 8 ∧ g.close [0, 9] = [0, 1, 3, 4, 9] ∧
    EdgeSet.Ascending [0, 9] ∧ EdgeSet.Ascending [0, 2, 9] ∧
    g.RestsAt [0, 9] (g.close [0, 9]) ∧ EdgeSet.Ascending (g.close [0, 9]) ∧
      IsLeast {c : Set Nat | g.Closed c ∧ {e | e ∈ [0, 9]} ⊆ c} {e | e ∈ g.close [0, 9]} ∧
      (g.isClosed [0, 9] = true ↔ g.Closed {e | e ∈ [0, 9]}) ∧
      g.close (g.close [0, 9]) = g.close [0, 9] ∧ g.close [0, 9] ⊆ g.close [0, 2, 9] ∧
      g.close (EdgeSet.union [0, 9] [0, 2, 9]) =
        EdgeSet.union (g.close [0, 9]) (g.close [0, 2, 9]) := by
  have h : (compile bareSiding {}).result.toOption.map (fun t =>
      (t.graph.edgeCount, t.graph.close [0, 9])) = some (8, [0, 1, 3, 4, 9]) := by
    decide +kernel
  obtain ⟨t, ht, hvalues⟩ := exists_of_toOption_map h
  obtain ⟨hcount, hclose⟩ := Prod.mk.inj hvalues
  obtain ⟨records, -, r, hr, hcompile⟩ := compile_eq_ok.1 ht
  have hlink := (Registry.compile_eq_ok.1 hcompile).1
  have hreachable := Registry.reachable_ofRecords hr
  have hfew : EdgeSet.Ascending [0, 9] := by unfold EdgeSet.Ascending; decide
  have hmore : EdgeSet.Ascending [0, 2, 9] := by unfold EdgeSet.Ascending; decide
  obtain ⟨hrests, hascending, hleast, hclosed, htwice, hmono, hunion⟩ :=
    hreachable.closing_of_link hlink hfew hmore
  exact ⟨r, t.graph, hreachable, hlink, hcount, hclose, hfew, hmore, hrests, hascending, hleast,
    hclosed, htwice, hmono (by decide), hunion⟩

end TrackPlan
