import Mathlib.Data.Nat.Find
import Mathlib.Data.Prod.Lex
import TrackPlan.Proofs.Failure.Orphans

/-!
# The order of distances does not matter

A table of distances is a map, and its entries may come in any order. `Graph.Attaching` says what
becomes of a graph and of its edges when the distances of a table are attached, failures included;
it speaks of the entries by what they say, and never by where they stand in the table.

1. `DistanceEntry.rank` is the order in which entries are taken; `mergeSort_eq_of_perm` says that
   tables with the same entries are taken in the same order.
2. `mem_found_iff`: the entries that reach their edges are those before the first orphan.
3. `Wires.attaching` puts them together, and `Reachable.attaching_of_link` states it of linked
   graphs.
-/

namespace TrackPlan

/-! ## The order of the entries -/

namespace DistanceEntry

variable {a b : (Nat × Nat) × DistanceEntry}

/-- What entries are ordered by: the line, declared before implied, then the two nodes. -/
def rank (x : (Nat × Nat) × DistanceEntry) : Nat ×ₗ Bool ×ₗ Nat ×ₗ Nat :=
  toLex (x.2.line, toLex (x.2.implied, toLex x.1))

theorem before_iff_rank_le : before a b = true ↔ rank a ≤ rank b := by
  obtain ⟨⟨src, dest⟩, mm, line, implied⟩ := a
  obtain ⟨⟨src', dest'⟩, mm', line', implied'⟩ := b
  simp only [rank, Prod.Lex.toLex_le_toLex, Bool.lt_iff]
  unfold before
  cases implied <;> cases implied' <;> grind

/-- Entries of one rank are about one pair. -/
theorem pair_eq_of_rank_eq (h : rank a = rank b) : a.1 = b.1 := by
  simp only [rank, toLex_inj, Prod.mk.injEq] at h
  exact h.2.2

end DistanceEntry

open DistanceEntry (rank before)

namespace DistanceTable

variable {t t' : DistanceTable}

/-- No two entries of a table share a rank. -/
theorem pairwise_rank_mergeSort (ht : t.keys.Nodup) :
    (t.mergeSort before).Pairwise fun a b => rank a < rank b := by
  have hsorted := List.pairwise_mergeSort DistanceEntry.before_trans DistanceEntry.before_total t
  have hkeys : ((t.mergeSort before).map Prod.fst).Nodup :=
    ((List.mergeSort_perm t before).map Prod.fst).nodup_iff.2 ht
  refine (hsorted.and (List.pairwise_map.1 hkeys)).imp fun {a b} hab => ?_
  refine lt_of_le_of_ne (DistanceEntry.before_iff_rank_le.1 hab.1) fun heq => ?_
  exact hab.2 (DistanceEntry.pair_eq_of_rank_eq heq)

/-- Tables with the same entries are taken in the same order. -/
theorem mergeSort_eq_of_perm (hp : t.Perm t') (ht : t.keys.Nodup) :
    t.mergeSort before = t'.mergeSort before := by
  have ht' : t'.keys.Nodup := (hp.map Prod.fst).nodup_iff.1 ht
  refine List.Perm.eq_of_pairwise (fun a b _ _ hab hba => ?_) (pairwise_rank_mergeSort ht)
    (pairwise_rank_mergeSort ht') ?_
  · exact absurd hba (lt_asymm hab)
  · exact (List.mergeSort_perm t before).trans (hp.trans (List.mergeSort_perm t' before).symm)

end DistanceTable

/-! ## The entries that reach their edges -/

namespace Graph

variable {g : Graph} {t : DistanceTable} {entries : List ((Nat × Nat) × DistanceEntry)}
  {x y : (Nat × Nat) × DistanceEntry} {k : Nat} {required : Bool}

/-- The entry is about two nodes without an edge between them, and no such entry is of a lower
rank. -/
structure FirstOrphan (g : Graph) (t : DistanceTable) (x : (Nat × Nat) × DistanceEntry) :
    Prop where
  mem : x ∈ t
  orphan : ¬ g.Follows x.1.1 x.1.2
  rank_le : ∀ y ∈ t, ¬ g.Follows y.1.1 y.1.2 → rank x ≤ rank y

/-- The entry is about the two nodes of the edge, and comes before any orphan. -/
structure Reaches (g : Graph) (t : DistanceTable) (x : (Nat × Nat) × DistanceEntry) (k : Nat) :
    Prop where
  mem : x ∈ t
  found : g.edgeBetween? x.1.1 x.1.2 = some k
  rank_lt : ∀ y, g.FirstOrphan t y → rank x < rank y

/-- No entry is about the two nodes of the edge. -/
def Unmeasured (g : Graph) (t : DistanceTable) (k : Nat) : Prop :=
  ∀ p ∈ t.keys, g.edgeBetween? p.1 p.2 ≠ some k

/-- The lowest edge that no entry is about. -/
structure FirstUnmeasured (g : Graph) (t : DistanceTable) (k : Nat) : Prop where
  lt : k < g.edgeCount
  unmeasured : g.Unmeasured t k
  le : ∀ j < g.edgeCount, g.Unmeasured t j → k ≤ j

/-- What becomes of a graph when the distances of a table are attached. -/
structure Attaching (g : Graph) (t : DistanceTable) (required : Bool) : Prop where
  /-- The order of the entries does not matter. -/
  attach_eq : ∀ t', t.Perm t' → g.attach t' required = g.attach t required
  /-- The first orphan is reported, and nothing else as an orphan. -/
  orphan_iff : ∀ line src dest, (g.attach t required).2.result =
    .error (.orphanDistance line src dest) ↔ ∃ x, g.FirstOrphan t x ∧ line = x.2.line ∧
      src = g.nameOf x.1.1 ∧ dest = g.nameOf x.1.2
  exists_firstOrphan_iff : (∃ x, g.FirstOrphan t x) ↔ ∃ p ∈ t.keys, ¬ g.Follows p.1 p.2
  /-- If there is no orphan, the lowest edge without an entry is missed where distances are
  required. -/
  missing_iff : ∀ src dest, (g.attach t required).2.result =
    .error (.missingDistance src dest) ↔ (∀ p ∈ t.keys, g.Follows p.1 p.2) ∧ required = true ∧
      ∃ k e, g.FirstUnmeasured t k ∧ g.edge? k = some e ∧ src = g.nameOf e.src ∧
        dest = g.nameOf e.dest
  exists_firstUnmeasured_iff :
    (∃ k, g.FirstUnmeasured t k) ↔ ∃ k < g.edgeCount, g.Unmeasured t k
  ok_iff : (g.attach t required).2.result = .ok () ↔ (∀ p ∈ t.keys, g.Follows p.1 p.2) ∧
    (required = true → ∀ k < g.edgeCount, ¬ g.Unmeasured t k)
  /-- Only edges change, and of an edge only its distance. -/
  frame : ∃ edges, (g.attach t required).1 = { g with edges := edges } ∧
    edges.size = g.edges.size
  edge : ∀ k e, g.edge? k = some e → ∃ mm,
    (g.attach t required).1.edge? k = some { e with distance := mm } ∧
      (∀ x, g.Reaches t x k → mm = x.2.millimeters) ∧
      ((∀ x, ¬ g.Reaches t x k) → mm = e.distance)

/-! ## Orphans -/

/-- If there is an orphan, there is a first one, and measuring fails because of it. -/
theorem WellFormed.exists_firstOrphan (hg : g.WellFormed)
    (h : ∃ x ∈ t, ¬ g.Follows x.1.1 x.1.2) : ∃ x, g.FirstOrphan t x ∧
      (g.measure (t.mergeSort before)).2.2 =
        .error (.orphanDistance x.2.line (g.nameOf x.1.1) (g.nameOf x.1.2)) := by
  simp only [← hg.edgeBetween?_eq_none_iff] at h
  obtain ⟨x, hx, hnone, hmeasure, hfirst⟩ := exists_measure_eq_error h
  refine ⟨x, ⟨hx, hg.edgeBetween?_eq_none_iff.1 hnone, fun y hy hn => ?_⟩, hmeasure⟩
  exact DistanceEntry.before_iff_rank_le.1
    (hfirst y hy (hg.edgeBetween?_eq_none_iff.2 hn))

/-- There is at most one first orphan. -/
theorem FirstOrphan.eq (ht : t.keys.Nodup) (hx : g.FirstOrphan t x) (hy : g.FirstOrphan t y) :
    x = y := by
  have hrank := le_antisymm (hx.rank_le y hy.mem hy.orphan) (hy.rank_le x hx.mem hx.orphan)
  exact List.inj_on_of_nodup_map ht hx.mem hy.mem (DistanceEntry.pair_eq_of_rank_eq hrank)

theorem FirstOrphan.not_follows (hx : g.FirstOrphan t x) :
    ¬ ∀ p ∈ t.keys, g.Follows p.1 p.2 := fun h =>
  hx.orphan (h x.1 (List.mem_map_of_mem hx.mem))

theorem WellFormed.exists_firstOrphan_iff (hg : g.WellFormed) :
    (∃ x, g.FirstOrphan t x) ↔ ∃ p ∈ t.keys, ¬ g.Follows p.1 p.2 := by
  constructor
  · rintro ⟨x, hx⟩
    exact ⟨x.1, List.mem_map_of_mem hx.mem, hx.orphan⟩
  · rintro ⟨p, hp, hn⟩
    obtain ⟨x, hx, rfl⟩ := List.mem_map.1 hp
    obtain ⟨y, hy, -⟩ := hg.exists_firstOrphan ⟨x, hx, hn⟩
    exact ⟨y, hy⟩

theorem WellFormed.firstOrphan_or_follows (hg : g.WellFormed) (t : DistanceTable) :
    (∃ x, g.FirstOrphan t x) ∨ ∀ p ∈ t.keys, g.Follows p.1 p.2 := by
  rw [hg.exists_firstOrphan_iff]
  by_cases h : ∃ p ∈ t.keys, ¬ g.Follows p.1 p.2
  · exact Or.inl h
  · exact Or.inr (by simpa using h)

/-- What comes before every orphan comes before the first. -/
theorem WellFormed.forall_rank_lt_iff (hg : g.WellFormed) :
    (∀ y ∈ t, ¬ g.Follows y.1.1 y.1.2 → rank x < rank y) ↔
      ∀ y, g.FirstOrphan t y → rank x < rank y := by
  constructor
  · intro h y hy
    exact h y hy.mem hy.orphan
  · intro h y hy hn
    obtain ⟨z, hz, -⟩ := hg.exists_firstOrphan ⟨y, hy, hn⟩
    exact lt_of_lt_of_le (h z hz) (hz.rank_le y hy hn)

/-! ## Measuring, up to the first orphan -/

/-- Measuring changes nothing but edges. -/
theorem exists_measure_eq (g : Graph) (entries : List ((Nat × Nat) × DistanceEntry)) :
    ∃ edges, (g.measure entries).1 = { g with edges := edges } ∧ edges.size = g.edges.size := by
  induction entries generalizing g with
  | nil => exact ⟨g.edges, rfl, rfl⟩
  | cons x rest ih =>
    obtain ⟨⟨src, dest⟩, entry⟩ := x
    unfold measure
    cases g.edgeBetween? src dest with
    | none => exact ⟨g.edges, rfl, rfl⟩
    | some edge =>
      obtain ⟨edges, hedges, hsize⟩ := ih (g.setDistance edge entry.millimeters)
      exact ⟨edges, hedges, hsize.trans (Array.size_modify ..)⟩

/-- The entries in front of the first one that has no edge. -/
def found (g : Graph) (entries : List ((Nat × Nat) × DistanceEntry)) :
    List ((Nat × Nat) × DistanceEntry) :=
  entries.takeWhile fun x => (g.edgeBetween? x.1.1 x.1.2).isSome

/-- What is measured is measured by the entries in front of the first one that has no edge. -/
theorem measure_found : (g.measure (g.found entries)).1 = (g.measure entries).1 := by
  induction entries generalizing g with
  | nil => rfl
  | cons x rest ih =>
    obtain ⟨⟨src, dest⟩, entry⟩ := x
    cases hk : g.edgeBetween? src dest with
    | none =>
      unfold found
      rw [List.takeWhile_cons_of_neg (by simp [hk])]
      unfold measure
      rw [hk]
    | some edge =>
      have hrest : (g.setDistance edge entry.millimeters).found rest = g.found rest := by
        unfold found
        simp only [edgeBetween?_setDistance]
      have hfound : g.found (((src, dest), entry) :: rest) =
          ((src, dest), entry) :: g.found rest :=
        List.takeWhile_cons_of_pos (by simp [hk])
      rw [hfound]
      unfold measure
      rw [hk]
      dsimp only
      rw [← hrest]
      exact ih

theorem measure_found_eq_ok : (g.measure (g.found entries)).2.2 = .ok () := by
  refine measure_eq_ok_iff.2 fun x hx => Option.isSome_iff_exists.1 ?_
  have hsome : ∀ y ∈ g.found entries, (g.edgeBetween? y.1.1 y.1.2).isSome = true :=
    List.all_eq_true.1 List.all_takeWhile
  exact hsome x hx

/-- The entries that are measured are those that come before the first orphan. -/
theorem WellFormed.mem_found_iff (hg : g.WellFormed) (ht : t.keys.Nodup) :
    x ∈ g.found (t.mergeSort before) ↔ ∃ k, g.Reaches t x k := by
  have : Std.Asymm fun x y : (Nat × Nat) × DistanceEntry => rank x < rank y :=
    ⟨fun _ _ => lt_asymm⟩
  unfold found
  rw [mem_takeWhile_iff_of_pairwise (DistanceTable.pairwise_rank_mergeSort ht),
    List.mem_mergeSort, Option.isSome_iff_exists]
  simp only [List.mem_mergeSort, Option.isSome_eq_false_iff, Option.isNone_iff_eq_none,
    hg.edgeBetween?_eq_none_iff, hg.forall_rank_lt_iff]
  constructor
  · rintro ⟨hx, ⟨k, hk⟩, hlt⟩
    exact ⟨k, hx, hk, hlt⟩
  · rintro ⟨k, hx, hk, hlt⟩
    exact ⟨hx, ⟨k, hk⟩, hlt⟩

theorem keys_nodup_found (ht : t.keys.Nodup) :
    (DistanceTable.keys (g.found (t.mergeSort before))).Nodup := by
  have hsort : ((t.mergeSort before).map Prod.fst).Nodup :=
    ((List.mergeSort_perm t before).map Prod.fst).nodup_iff.2 ht
  exact hsort.sublist ((List.takeWhile_sublist _).map Prod.fst)

/-! ## Edges that no entry is about -/

theorem exists_firstUnmeasured_iff :
    (∃ k, g.FirstUnmeasured t k) ↔ ∃ k < g.edgeCount, g.Unmeasured t k := by
  constructor
  · rintro ⟨k, hk⟩
    exact ⟨k, hk.lt, hk.unmeasured⟩
  · intro h
    classical
    obtain ⟨hlt, hfree⟩ := Nat.find_spec h
    exact ⟨Nat.find h, hlt, hfree, fun j hj hfree' => Nat.find_min' h ⟨hj, hfree'⟩⟩

theorem find?_unmeasured_eq_some_iff {measured : List Nat} {e : Edge}
    (hid : ∀ k e, g.edge? k = some e → e.id = k) :
    g.edges.toList.find? (fun e => !measured.contains e.id) = some e ↔
      ∃ k, g.edge? k = some e ∧ k ∉ measured ∧ ∀ j < k, j ∈ measured := by
  have hget : ∀ k (hk : k < g.edges.toList.length), g.edge? k = some g.edges.toList[k] :=
    fun k hk => Array.getElem?_toList.symm.trans (List.getElem?_eq_getElem hk)
  rw [List.find?_eq_some_iff_getElem]
  simp only [Bool.not_eq_true', List.contains_eq_mem, decide_eq_false_iff_not, Bool.not_not,
    decide_eq_true_eq]
  constructor
  · rintro ⟨hfree, k, hk, rfl, hbefore⟩
    rw [hid k _ (hget k hk)] at hfree
    refine ⟨k, hget k hk, hfree, fun j hj => ?_⟩
    have hmem := hbefore j hj
    rwa [hid j _ (hget j (Nat.lt_trans hj hk))] at hmem
  · rintro ⟨k, he, hfree, hbefore⟩
    have hk : k < g.edges.toList.length := (Array.getElem?_eq_some_iff.1 he).1
    refine ⟨by rwa [hid k e he], k, hk, ?_, fun j hj => ?_⟩
    · exact Option.some.inj ((hget k hk).symm.trans he)
    · rw [hid j _ (hget j (Nat.lt_trans hj hk))]
      exact hbefore j hj

/-- Where distances are required, the lowest edge without one is missed. -/
theorem judgeUnmeasured_eq_error_iff {measured : List Nat} {err : CompileError}
    (hid : ∀ k e, g.edge? k = some e → e.id = k) :
    (g.judgeUnmeasured measured required).result = .error err ↔ required = true ∧
      ∃ k e, g.edge? k = some e ∧ k ∉ measured ∧ (∀ j < k, j ∈ measured) ∧
        err = .missingDistance (g.nameOf e.src) (g.nameOf e.dest) := by
  have hfind : (∃ k e, g.edge? k = some e ∧ k ∉ measured ∧ (∀ j < k, j ∈ measured) ∧
      err = .missingDistance (g.nameOf e.src) (g.nameOf e.dest)) ↔
        ∃ e, (g.edges.toList.filter fun e => !measured.contains e.id).head? = some e ∧
          err = .missingDistance (g.nameOf e.src) (g.nameOf e.dest) := by
    simp only [List.head?_filter, find?_unmeasured_eq_some_iff hid]
    constructor
    · rintro ⟨k, e, he, hfree, hbefore, herr⟩
      exact ⟨e, ⟨k, he, hfree, hbefore⟩, herr⟩
    · rintro ⟨e, ⟨k, he, hfree, hbefore⟩, herr⟩
      exact ⟨k, e, he, hfree, hbefore, herr⟩
  rw [hfind]
  unfold judgeUnmeasured
  cases required with
  | false => exact iff_of_false (by simp [Report.warn]) (by simp)
  | true =>
    dsimp only
    rw [if_pos rfl, and_iff_right rfl]
    split
    · next hnil =>
      rw [hnil]
      simp
    · next e rest hcons =>
      rw [hcons]
      simp [Report.fail, eq_comm]

end Graph

namespace Registry

variable {r : Registry} {g : Graph} {t : DistanceTable} {k : Nat} {e : Edge} {required : Bool}
  {o : Options}

/-- Every entry that reaches an edge gives it its distance, and nothing else of an edge changes. -/
theorem Wires.edge_attach (hw : r.Wires g) (hv : r.Valid) (ht : t.keys.Nodup)
    (he : g.edge? k = some e) (required : Bool) : ∃ mm,
      (g.attach t required).1.edge? k = some { e with distance := mm } ∧
        (∀ x, g.Reaches t x k → mm = x.2.millimeters) ∧
        ((∀ x, ¬ g.Reaches t x k) → mm = e.distance) := by
  have hg := hw.wellFormed hv
  have hkeys := Graph.keys_nodup_found (g := g) ht
  have hedge := hw.edge?_measure (k := k) hv hkeys Graph.measure_found_eq_ok
  rw [Graph.measure_found, he, Option.map_some] at hedge
  refine ⟨_, hedge, fun x hx => ?_, fun hnone => ?_⟩
  · obtain ⟨f, hf, hsrc, hdest⟩ := hg.edge_of_edgeBetween? hx.found
    rw [he, Option.some.injEq] at hf
    subst hf
    have hlookup : List.lookup (e.src, e.dest) (g.found (t.mergeSort before)) = some x.2 := by
      rw [hsrc, hdest]
      exact lookup_eq_some_of_mem hkeys ((hg.mem_found_iff ht).2 ⟨k, hx⟩)
    unfold Graph.measuredAs DistanceTable.millimeters?
    rw [hsrc, hdest, if_pos hx.found, ← hsrc, ← hdest, hlookup]
    rfl
  · unfold Graph.measuredAs
    split
    · next hk =>
      have hlookup : List.lookup (e.src, e.dest) (g.found (t.mergeSort before)) = none := by
        rw [List.lookup_eq_none_iff]
        intro x hx
        rw [bne_iff_ne]
        intro heq
        obtain ⟨j, hj⟩ := (hg.mem_found_iff ht).1 hx
        have hjk := hj.found
        rw [← heq, hk, Option.some.injEq] at hjk
        exact hnone x (hjk ▸ hj)
      unfold DistanceTable.millimeters?
      rw [hlookup]
      rfl
    · rfl

/-- If there is an orphan, the first one is reported. -/
theorem Wires.result_attach_of_firstOrphan (hw : r.Wires g) (hv : r.Valid) (ht : t.keys.Nodup)
    {x : (Nat × Nat) × DistanceEntry} (hx : g.FirstOrphan t x) :
    (g.attach t required).2.result =
      .error (.orphanDistance x.2.line (g.nameOf x.1.1) (g.nameOf x.1.2)) := by
  obtain ⟨y, hy, hmeasure⟩ := (hw.wellFormed hv).exists_firstOrphan ⟨x, hx.mem, hx.orphan⟩
  obtain rfl := hx.eq ht hy
  unfold Graph.attach
  rw [Report.result_bind, Report.result_ofExcept, hmeasure]
  rfl

/-- If there is no orphan, only an edge without a distance can be in the way. -/
theorem Wires.result_attach_eq_error_iff (hw : r.Wires g) (hv : r.Valid) (ht : t.keys.Nodup)
    (hfollows : ∀ p ∈ t.keys, g.Follows p.1 p.2) {err : CompileError} :
    (g.attach t required).2.result = .error err ↔ required = true ∧
      ∃ k e, g.FirstUnmeasured t k ∧ g.edge? k = some e ∧
        err = .missingDistance (g.nameOf e.src) (g.nameOf e.dest) := by
  have hg := hw.wellFormed hv
  have hok : (g.measure (t.mergeSort before)).2.2 = .ok () := by
    rw [Graph.measure_eq_ok_iff]
    intro x hx
    have hmem := List.mem_mergeSort.1 hx
    exact hg.exists_edgeBetween?_iff.2 (hfollows x.1 (List.mem_map_of_mem hmem))
  have hmeasured : ∀ k, k ∈ (g.measure (t.mergeSort before)).2.1 ↔ ¬ g.Unmeasured t k := by
    intro k
    rw [Graph.mem_measured_iff hok]
    unfold Graph.Unmeasured DistanceTable.keys
    simp only [List.mem_mergeSort, List.forall_mem_map, not_forall, not_not, exists_prop]
  have hresult : (g.attach t required).2.result =
      ((g.measure (t.mergeSort before)).1.judgeUnmeasured
        (g.measure (t.mergeSort before)).2.1 required).result := by
    unfold Graph.attach
    rw [Report.result_bind, Report.result_ofExcept, hok]
    rfl
  have hcount : (g.measure (t.mergeSort before)).1.edgeCount = g.edgeCount :=
    Graph.edgeCount_measure
  rw [hresult, Graph.judgeUnmeasured_eq_error_iff (hw.measure _).edge_id]
  simp only [hmeasured, not_not, Graph.nameOf_measure]
  refine and_congr_right fun _ => exists_congr fun k => ?_
  constructor
  · rintro ⟨e', he', hfree, hbefore, herr⟩
    have hk : k < g.edgeCount := hcount ▸ (Array.getElem?_eq_some_iff.1 he').1
    have he : g.edge? k = some g.edges[k] := Array.getElem?_eq_getElem hk
    obtain ⟨mm, hattach, -⟩ := hw.edge_attach hv ht he required
    have heq : e' = { g.edges[k] with distance := mm } := Option.some.inj (he'.symm.trans hattach)
    refine ⟨g.edges[k], ⟨hk, hfree, fun j _ hj => ?_⟩, he, by rw [herr, heq]⟩
    exact Nat.le_of_not_lt fun hlt => hbefore j hlt hj
  · rintro ⟨e, hk, he, herr⟩
    obtain ⟨mm, hattach, -⟩ := hw.edge_attach hv ht he required
    refine ⟨_, hattach, hk.unmeasured, fun j hj hfree => ?_, herr⟩
    exact Nat.not_lt.2 (hk.le j (Nat.lt_trans hj hk.lt) hfree) hj

theorem Wires.attaching (hw : r.Wires g) (hv : r.Valid) (ht : t.keys.Nodup) :
    g.Attaching t required where
  attach_eq := by
    intro t' hp
    unfold Graph.attach
    rw [DistanceTable.mergeSort_eq_of_perm hp ht]
  orphan_iff := by
    intro line src dest
    rcases (hw.wellFormed hv).firstOrphan_or_follows t with ⟨x, hx⟩ | hfollows
    · rw [hw.result_attach_of_firstOrphan hv ht hx]
      constructor
      · intro h
        cases h
        exact ⟨x, hx, rfl, rfl, rfl⟩
      · rintro ⟨y, hy, rfl, rfl, rfl⟩
        rw [hx.eq ht hy]
    · refine iff_of_false (fun h => ?_) fun ⟨x, hx, _⟩ => hx.not_follows hfollows
      obtain ⟨-, k, e, -, -, herr⟩ := (hw.result_attach_eq_error_iff hv ht hfollows).1 h
      cases herr
  exists_firstOrphan_iff := (hw.wellFormed hv).exists_firstOrphan_iff
  missing_iff := by
    intro src dest
    rcases (hw.wellFormed hv).firstOrphan_or_follows t with ⟨x, hx⟩ | hfollows
    · rw [hw.result_attach_of_firstOrphan hv ht hx]
      exact iff_of_false (by simp) fun h => hx.not_follows h.1
    · rw [hw.result_attach_eq_error_iff hv ht hfollows, and_iff_right hfollows]
      simp only [CompileError.missingDistance.injEq]
  exists_firstUnmeasured_iff := Graph.exists_firstUnmeasured_iff
  ok_iff := by
    rcases (hw.wellFormed hv).firstOrphan_or_follows t with ⟨x, hx⟩ | hfollows
    · rw [hw.result_attach_of_firstOrphan hv ht hx]
      exact iff_of_false (by simp) fun h => hx.not_follows h.1
    · rw [and_iff_right hfollows]
      cases hresult : (g.attach t required).2.result with
      | ok u =>
        refine iff_of_true rfl fun hrequired k hk hfree => ?_
        obtain ⟨j, hj⟩ := Graph.exists_firstUnmeasured_iff.2 ⟨k, hk, hfree⟩
        have hfail := (hw.result_attach_eq_error_iff hv ht hfollows).2
          ⟨hrequired, j, _, hj, Array.getElem?_eq_getElem hj.lt, rfl⟩
        rw [hresult] at hfail
        cases hfail
      | error err =>
        obtain ⟨hrequired, k, e, hk, -⟩ :=
          (hw.result_attach_eq_error_iff hv ht hfollows).1 hresult
        exact iff_of_false (by simp) fun h => h hrequired k hk.lt hk.unmeasured
  frame := Graph.exists_measure_eq g _
  edge := fun k e he => hw.edge_attach hv ht he required

/-- **Attaching distances.** Whatever distances are attached to a graph that is being linked or is
linked already, what becomes of it does not depend on their order. The first orphan is reported,
else the lowest edge without a distance where all are required; and an edge has a new distance just
if an entry in front of the first orphan is about its two nodes. -/
theorem Reachable.attaching_of_link (hr : r.Reachable)
    (h : r.wire = .ok g ∨ (r.link o).result = .ok g) (ht : t.keys.Nodup) :
    g.Attaching t required := by
  have hw : r.Wires g := h.elim wires_of_wire wires_of_link
  exact hw.attaching hr.valid ht

/-- A branch whose two ways lead to one sensor, and a sensor that leads to itself. -/
def twin : Registry :=
  { decls := [⟨"S", "T", .branch 1 "A" "A", 1⟩, ⟨"T", "S", .merge 1 "A", 1⟩,
      ⟨"A", "B", .sensor 0 "T", 2⟩, ⟨"B", "A", .sensor 2 "B", 2⟩]
    names := [("S", 0), ("T", 1), ("A", 2), ("B", 3)]
    sensors := [(0, 2), (2, 3)]
    switches := [0, 1] }

theorem reachable_twin : twin.Reachable :=
  .add (.add .empty ⟨1, .switch "S" 1 "A" "A" "T" "A"⟩) ⟨2, .sensors ⟨"A", 0, "T"⟩ ⟨"B", 2, "B"⟩⟩

def twinGraph : Graph :=
  { nodes := #[⟨0, "A", 2, .sensor 0 4, [0]⟩, ⟨1, "", 1, .dummy, []⟩, ⟨2, "B", 0, .sensor 2 2, [1]⟩,
      ⟨3, "S", 4, .branch 1 0 0, [2, 3]⟩, ⟨4, "T", 3, .merge 1 0, [4]⟩]
    edges := #[⟨0, 0, 4, 0, .curved, 0⟩, ⟨1, 2, 2, 0, .ahead, 0⟩, ⟨2, 3, 0, 0, .ahead, 0⟩,
      ⟨3, 3, 0, 1, .ahead, 0⟩, ⟨4, 4, 0, 0, .ahead, 0⟩]
    places := [("A", 0), ("B", 2), ("S", 3), ("T", 4)]
    sensorCount := 2
    sensorSlots := 3 }

theorem link_twin : (twin.link {}).result = .ok twinGraph := by decide +kernel

/-- Two orphans on one line, the first of them from a dummy to no node at all; two entries in front
of them, one of which is about both ways of the branch, and one behind them. -/
def twinTable : DistanceTable :=
  [((4, 0), ⟨9, 5, false⟩), ((7, 3), ⟨1, 3, true⟩), ((3, 0), ⟨7, 2, true⟩),
    ((1, 4294967295), ⟨1, 3, true⟩), ((0, 4), ⟨8, 3, false⟩)]

theorem attaching_twin : twin.Reachable ∧ (twin.link {}).result = .ok twinGraph ∧
    twinTable.keys.Nodup ∧ (twinGraph.attach twinTable true).2.result =
      .error (.orphanDistance 3 "" "n4294967295") ∧
    (twinGraph.attach twinTable true).1.edges.toList.map Edge.distance = [8, 0, 7, 0, 0] ∧
    twinGraph.Attaching twinTable true := by
  have hkeys : twinTable.keys.Nodup := by decide
  refine ⟨reachable_twin, link_twin, hkeys, ?_, ?_,
    reachable_twin.attaching_of_link (Or.inr link_twin) hkeys⟩
  · rw [Graph.attach_eq_inserting]
    decide +kernel
  · rw [Graph.attach_eq_inserting]
    decide +kernel

end Registry

end TrackPlan
