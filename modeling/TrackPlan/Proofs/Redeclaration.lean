import TrackPlan.Proofs.Reordering
import TrackPlan.Proofs.Warnings

/-!
# Redeclared distances

A warning is given where a record replaces the distance of a pair of nodes by another one. It only
looks at the entry that is replaced; but where the last distance of a pair is always the one that is
said again, it is the first one, too. So there is no warning just if the records agree on every pair
(`Graph.Agree`), and then their order is of no account.

1. `DistanceTable.redeclarations_declare_eq_nil_iff` is about one entry, `Draws.silent_step_iff`
   about one record, and `Draws.silent_iff` is the run.
2. `Agree.lastDistance_eq`: where records agree, any of them may be the last one.
3. `agree_of_compile` puts these together.
-/

namespace TrackPlan

open Text

/-- Records that cover a pair give it one distance. -/
def Graph.Agree (g : Graph) (xs : List DistanceDecl) : Prop :=
  ∀ x ∈ xs, ∀ y ∈ xs, ∀ pair ∈ g.coveredPairs x, pair ∈ g.coveredPairs y →
    x.millimeters = y.millimeters

/-! ## When there is no warning -/

/-- No warning: whatever the table has for the pair is of the same distance, or of the same line. -/
theorem DistanceTable.redeclarations_declare_eq_nil_iff {t : DistanceTable} {x : DistanceDecl}
    {pair : Nat × Nat} {implied : Bool} : (t.declare x pair implied).redeclarations = [] ↔
      ∀ entry, t.lookup pair = some entry →
        entry.millimeters = x.millimeters ∨ entry.line = x.line := by
  have hwarnings : (t.declare x pair implied).warnings = t.redeclared x pair :=
    List.append_nil _
  unfold Report.redeclarations
  rw [hwarnings]
  unfold redeclared
  cases t.lookup pair with
  | none => simp
  | some previous =>
    dsimp only
    split
    · next h => simp [Warning.redeclaration?, h]
    · next h =>
      simp only [List.filterMap_nil, true_iff, Option.some.injEq, forall_eq']
      exact or_iff_not_and_not.2 h

namespace Registry

variable {r : Registry} {g : Graph} {records : List LineRecord} {t t' : DistanceTable}
  {xs : List DistanceDecl} {x : DistanceDecl} {p q : Nat × Nat}

theorem redeclarations_gatherDistances_cons {places : List (String × Nat)}
    (hx : r.coveredPairs places x = .ok (p, q)) :
    (r.gatherDistances places t (x :: xs)).redeclarations =
      (t.declare x p false).redeclarations ++
        (((t.insert p ⟨x.millimeters, x.line, false⟩).declare x q true).redeclarations ++
          (r.gatherDistances places ((t.insert p ⟨x.millimeters, x.line, false⟩).insert q
            ⟨x.millimeters, x.line, true⟩) xs).redeclarations) := by
  unfold Report.redeclarations
  conv_lhs => unfold gatherDistances
  rw [Report.warnings_ofExcept_bind hx, Report.warnings_bind DistanceTable.result_declare,
    Report.warnings_bind DistanceTable.result_declare, List.filterMap_append, List.filterMap_append]

/-- The step: a record on a line of its own gives no warning if the table has no other distance for
the pairs that it covers. -/
theorem Draws.silent_step_iff (hd : r.Draws g records)
    (hx : r.coveredPairs g.places x = .ok (p, q))
    (hfresh : ∀ pair entry, t.lookup pair = some entry → entry.line ≠ x.line) :
    (t.declare x p false).redeclarations = [] ∧
      ((t.insert p ⟨x.millimeters, x.line, false⟩).declare x q true).redeclarations = [] ↔
        ∀ pair ∈ g.coveredPairs x, ∀ entry, t.lookup pair = some entry →
          entry.millimeters = x.millimeters := by
  simp only [DistanceTable.redeclarations_declare_eq_nil_iff, DistanceTable.lookup_insert,
    hd.mem_coveredPairs_iff hx, forall_eq_or_imp, forall_eq]
  have hnamed : (∀ entry, t.lookup p = some entry →
      entry.millimeters = x.millimeters ∨ entry.line = x.line) ↔
        ∀ entry, t.lookup p = some entry → entry.millimeters = x.millimeters :=
    forall₂_congr fun entry he => or_iff_left (hfresh p entry he)
  rw [hnamed]
  refine and_congr_right fun hp => ?_
  by_cases hqp : q = p
  · -- the entry that is replaced is the one that the record has just made
    subst hqp
    simpa using hp
  · rw [if_neg hqp]
    exact forall₂_congr fun entry he => or_iff_left (hfresh q entry he)

/-- The run: no record gives a warning if each agrees with the table and with the earlier ones. -/
theorem Draws.silent_iff (hd : r.Draws g records)
    (h : (r.gatherDistances g.places t xs).result = .ok t')
    (hlines : (xs.map DistanceDecl.line).Nodup)
    (hfresh : ∀ x ∈ xs, ∀ pair entry, t.lookup pair = some entry → entry.line ≠ x.line) :
    (r.gatherDistances g.places t xs).redeclarations = [] ↔
      (∀ x ∈ xs, ∀ pair ∈ g.coveredPairs x, ∀ entry, t.lookup pair = some entry →
        entry.millimeters = x.millimeters) ∧
      xs.Pairwise fun x y => ∀ pair ∈ g.coveredPairs x, pair ∈ g.coveredPairs y →
        x.millimeters = y.millimeters := by
  induction xs generalizing t with
  | nil => simp [gatherDistances, Report.redeclarations]
  | cons x rest ih =>
    obtain ⟨p, q, hx, hrest⟩ := gatherDistances_cons.1 h
    obtain ⟨hline, hlines⟩ := List.nodup_cons.1 hlines
    obtain ⟨hfreshx, hfresh⟩ := List.forall_mem_cons.1 hfresh
    have hlookup := hd.lookup_insert hx t
    rw [redeclarations_gatherDistances_cons hx, List.append_eq_nil_iff, List.append_eq_nil_iff,
      ← and_assoc, hd.silent_step_iff hx hfreshx, ih hrest hlines ?fresh, List.forall_mem_cons,
      List.pairwise_cons]
    case fresh =>
      intro y hy pair entry he
      rw [hlookup] at he
      split at he
      · cases he
        rintro (heq : x.line = y.line)
        exact hline (heq ▸ List.mem_map_of_mem hy)
      · exact hfresh y hy pair entry he
    simp only [hlookup]
    constructor
    · rintro ⟨hfirst, hlater, hpairs⟩
      have hagree : ∀ y ∈ rest, ∀ pair ∈ g.coveredPairs x, pair ∈ g.coveredPairs y →
          x.millimeters = y.millimeters := fun y hy pair hpx hpy =>
        hlater y hy pair hpy (g.entryFor x pair) (if_pos hpx)
      refine ⟨⟨hfirst, fun y hy pair hpair entry he => ?_⟩, hagree, hpairs⟩
      by_cases hpx : pair ∈ g.coveredPairs x
      · exact (hfirst pair hpx entry he).trans (hagree y hy pair hpx hpair)
      · exact hlater y hy pair hpair entry (by rw [if_neg hpx, he])
    · rintro ⟨⟨hfirst, hlater⟩, hagree, hpairs⟩
      refine ⟨hfirst, fun y hy pair hpair entry he => ?_, hpairs⟩
      split at he
      · next hpx =>
        cases he
        exact hagree y hy pair hpx hpair
      · exact hlater y hy pair hpair entry he

/-- No distance is redeclared if the records agree, and not otherwise. -/
theorem Draws.redeclarations_eq_nil_iff (hd : r.Draws g records)
    (h : (r.distanceTable g.places).result = .ok t)
    (hlines : (r.distances.map DistanceDecl.line).Nodup) :
    (r.distanceTable g.places).redeclarations = [] ↔ g.Agree r.distances := by
  unfold distanceTable at h ⊢
  rw [hd.silent_iff h hlines fun _ _ _ _ he => nomatch he]
  have hsymm : Std.Symm fun x y : DistanceDecl => ∀ pair ∈ g.coveredPairs x,
      pair ∈ g.coveredPairs y → x.millimeters = y.millimeters :=
    ⟨fun x y hxy pair hy hx => (hxy pair hx hy).symm⟩
  constructor
  · rintro ⟨-, hpairs⟩ x hx y hy
    exact hpairs.forall_of_forall (fun _ _ _ _ _ => rfl) hx hy
  · intro hagree
    refine ⟨fun _ _ _ _ _ he => (nomatch he), ?_⟩
    exact List.pairwise_of_forall_mem_list fun x hx y hy => hagree x hx y hy

end Registry

/-! ## The order of records that agree -/

namespace Graph

variable {g : Graph} {xs xs' : List DistanceDecl}

theorem agree_unnumbered : g.Agree (xs.map DistanceDecl.unnumbered) ↔ g.Agree xs := by
  unfold Agree
  simp only [List.forall_mem_map]
  exact Iff.rfl

/-- Any of the records that agree may be the last one. -/
theorem Agree.lastDistance_eq_of_perm (h : g.Agree xs) (hp : xs.Perm xs') :
    g.lastDistance xs = g.lastDistance xs' := by
  funext pair
  have hcovering := hp.filter (pair ∈ g.coveredPairs ·)
  unfold lastDistance
  cases hlast : (xs.filter (pair ∈ g.coveredPairs ·)).getLast? with
  | none =>
    rw [List.getLast?_eq_none_iff] at hlast
    rw [hlast] at hcovering
    rw [← hcovering.nil_eq]
    rfl
  | some x =>
    have hx := List.mem_filter.1 (List.mem_of_getLast? hlast)
    cases hlast' : (xs'.filter (pair ∈ g.coveredPairs ·)).getLast? with
    | none =>
      rw [List.getLast?_eq_none_iff] at hlast'
      rw [hlast'] at hcovering
      rw [hcovering.eq_nil] at hlast
      cases hlast
    | some y =>
      have hy := List.mem_filter.1 (List.mem_of_getLast? hlast')
      exact h x hx.1 y (hp.mem_iff.2 hy.1) pair (by simpa using hx.2) (by simpa using hy.2)

theorem Agree.lastDistance_eq (h : g.Agree xs)
    (hp : (xs.map DistanceDecl.unnumbered).Perm (xs'.map DistanceDecl.unnumbered)) :
    g.lastDistance xs = g.lastDistance xs' := by
  rw [← lastDistance_unnumbered xs, ← lastDistance_unnumbered xs']
  exact (agree_unnumbered.2 h).lastDistance_eq_of_perm hp

end Graph

/-- The same lines in another order; but the lines of each class of records, sensors and distances
apart, keep their order. -/
structure RearrangedLines (ls ls' : List (List Char)) : Prop where
  perm : ls.Perm ls'
  ordered : ∀ c, c ≠ .sensors → c ≠ .distances →
    ls.filter (lineClass? · = some c) = ls'.filter (lineClass? · = some c)

/-- In particular, distances may be moved among the other lines. -/
theorem rearrangedLines_of_filter {ls ls' : List (List Char)} (hp : ls.Perm ls')
    (h : ls.filter (lineClass? · ≠ some .distances) =
      ls'.filter (lineClass? · ≠ some .distances)) : RearrangedLines ls ls' where
  perm := hp
  ordered := by
    intro c _ hc
    have hclass : ∀ ls : List (List Char), ls.filter (lineClass? · = some c) =
        (ls.filter (lineClass? · ≠ some .distances)).filter (lineClass? · = some c) := by
      intro ls
      rw [List.filter_filter]
      refine List.filter_congr fun raw _ => ?_
      by_cases hraw : lineClass? raw = some c <;> simp [hraw, hc]
    rw [hclass ls, hclass ls', h]

theorem RearrangedLines.exists_records {ls ls' : List (List Char)} (h : RearrangedLines ls ls')
    {n : Nat} {records : List LineRecord} (hread : readLines n ls = .ok records) :
    ∃ records', readLines n ls' = .ok records' ∧ Rearranged records records' := by
  obtain ⟨records', hread', hperm, hclass⟩ := exists_readLines_of_perm h.perm hread
  exact ⟨records', hread', hperm, fun c hc hc' => hclass c (h.ordered c hc hc')⟩

theorem RearrangedLines.compile {a b : String} {o : Options} {t : Track}
    {records : List LineRecord} (h : RearrangedLines (lines a.toList) (lines b.toList))
    (hread : readRecords a = .ok records)
    (hagree : t.graph.Agree (records.filterMap LineRecord.distance?))
    (ht : (compile a o).result = .ok t) : (compile b o).result = .ok t := by
  obtain ⟨records', hread', hr⟩ := h.exists_records hread
  unfold TrackPlan.compile at ht ⊢
  rw [Report.result_bind_eq_ok_iff] at ht ⊢
  obtain ⟨_, hsame, hc⟩ := ht
  cases hread.symm.trans hsame
  exact ⟨records', hread', hr.compileRecords (hagree.lastDistance_eq hr.distances_perm) hc⟩

/-- **Redeclared distances.** A text that compiles gives no warning about a redeclared distance just
if all records that cover a pair of nodes agree on its distance. Then the text compiles to the same
track with its distances in any other order. -/
theorem agree_of_compile {text : String} {o : Options} {t : Track}
    (h : (compile text o).result = .ok t) : ∃ records, readRecords text = .ok records ∧
      ((compile text o).redeclarations = [] ↔
        t.graph.Agree (records.filterMap LineRecord.distance?)) ∧
      ((compile text o).redeclarations = [] → ∀ text' : String,
        RearrangedLines (lines text.toList) (lines text'.toList) →
          (compile text' o).result = .ok t) := by
  obtain ⟨records, r, hs, hredeclarations⟩ := exists_redeclarations_of_compile h
  have hlines : (r.distances.map DistanceDecl.line).Nodup := by
    rw [hs.draws.holds.distances_eq]
    refine List.pairwise_map.2 (List.Pairwise.imp Nat.ne_of_lt ?_)
    exact (readRecords_eq_ok_iff.1 hs.read).ascending_filterMap
      fun _ _ => LineRecord.line_of_distance?
  obtain ⟨table, htable, -⟩ := Registry.distance_of_link hs.draws.valid hs.link
  have hiff := hs.draws.redeclarations_eq_nil_iff htable hlines
  rw [← hredeclarations, hs.draws.holds.distances_eq] at hiff
  exact ⟨records, hs.read, hiff, fun hsilent text' hmoved =>
    hmoved.compile hs.read (hiff.1 hsilent) h⟩

/-- Two sensors, each the reverse of the other, measured each way with one distance. -/
def steadyShuttle : String := "sensor A : 0 -> B @ B : 1 -> A\ndist A B 7mm\ndist B A 7mm"

/-- The same lines with the distances the other way round, one of them in front. -/
def turnedShuttle : String := "dist B A 7mm\nsensor A : 0 -> B @ B : 1 -> A\ndist A B 7mm"

theorem agree_steadyShuttle :
    RearrangedLines (lines steadyShuttle.toList) (lines turnedShuttle.toList) ∧
      ∃ t, (compile steadyShuttle {}).result = .ok t ∧
        t.graph.edges.toList.map Edge.distance = [7, 7] ∧
        (compile steadyShuttle {}).redeclarations = [] ∧
          ∃ records, readRecords steadyShuttle = .ok records ∧
            t.graph.Agree (records.filterMap LineRecord.distance?) ∧
              (compile turnedShuttle {}).result = .ok t := by
  have hmoved : RearrangedLines (lines steadyShuttle.toList) (lines turnedShuttle.toList) :=
    rearrangedLines_of_filter (by decide +kernel) (by decide +kernel)
  have hsilent : (compile steadyShuttle {}).redeclarations = [] := by
    rw [compile_eq_inserting]
    decide +kernel
  have h : (compile steadyShuttle {}).result.toOption.map
      (fun t => t.graph.edges.toList.map Edge.distance) = some [7, 7] := by
    rw [compile_eq_inserting]
    decide +kernel
  obtain ⟨t, ht, hdistances⟩ := exists_of_toOption_map h
  obtain ⟨records, hread, hiff, hany⟩ := agree_of_compile ht
  exact ⟨hmoved, t, ht, hdistances, hsilent, records, hread, hiff.1 hsilent,
    hany hsilent turnedShuttle hmoved⟩

end TrackPlan
