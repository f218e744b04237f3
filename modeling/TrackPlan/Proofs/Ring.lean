import TrackPlan.Proofs.Reordering
import TrackPlan.Proofs.Ring.Groups

/-!
# Rings compile

The text of a ring compiles to the ring that it describes, for any number of plain segments and
sidings in any order, as long as the nodes fit.

1. `describes_ring`: the text describes the records of the ring, one on each line.
2. `exists_compileRecords`: these compile, since they are well described.
3. `isRing_of_compileRecords` tells the track, and `compile_ring` puts the three together. The lines
   of the records make no difference, so all but the text is about records without lines.
-/

namespace TrackPlan.Example

namespace Ring

variable {segments : List Segment} {gap n : Nat} {t : Track} {o : Options}

/-! ## The text -/

theorem map_unnumbered_numberedFrom (records : List Record) :
    (numberedFrom n records).map LineRecord.unnumbered = unlined records := by
  induction records generalizing n with
  | nil => rfl
  | cons record rest ih =>
    rw [numberedFrom, List.map_cons, ih]
    rfl

theorem map_unnumbered_unlined (records : List Record) :
    (unlined records).map LineRecord.unnumbered = unlined records := by
  unfold unlined
  rw [List.map_map]
  rfl

/-- Lines make no difference. -/
theorem reordered_numberedFrom (records : List Record) :
    Reordered (unlined records) (numberedFrom n records) := by
  constructor
  · rw [map_unnumbered_unlined, map_unnumbered_numberedFrom]
  · intro c _
    rw [map_unnumbered_unlined, map_unnumbered_numberedFrom]

theorem describes_ring (hlt : ∀ s ∈ segments, s.length < UInt32.size) :
    Describes (ringTrack segments gap ++ ringMutexes segments)
      (numberedFrom 1 (track segments gap ++ mutexes segments)) := by
  unfold ringTrack ringMutexes
  rw [← writeAll_append]
  exact describes_writeAll fun _ => named_and_sound hlt

theorem compile_of_compileRecords (hlt : ∀ s ∈ segments, s.length < UInt32.size)
    (h : (compileRecords (entries segments gap) o).result = .ok t) :
    (compile (ringTrack segments gap ++ ringMutexes segments) o).result = .ok t := by
  have hread : readRecords (ringTrack segments gap ++ ringMutexes segments) =
      .ok (numberedFrom 1 (track segments gap ++ mutexes segments)) :=
    readRecords_eq_ok_iff.2 (describes_ring hlt)
  unfold compile
  rw [hread]
  exact (reordered_numberedFrom _).compileRecords h

/-! ## The records -/

theorem exists_compileRecords (h : WellDescribed (entries segments gap) o) :
    ∃ t, (compileRecords (entries segments gap) o).result = .ok t := by
  obtain ⟨r, hr⟩ := Registry.exists_ofRecords_iff.2 h.distinct
  have hv := (Registry.reachable_ofRecords hr).valid
  obtain ⟨t, ht⟩ := ((Registry.holds_ofRecords hr).exists_compile_iff hv).2 h
  exact ⟨t, compileRecords_eq_ok.2 ⟨r, hr, ht⟩⟩

/-- The names that the loop visits in a segment. -/
def stops (s : Segment) (i : Nat) : List String :=
  named "F" i :: if s.siding then
    [named "BA" i, named (if s.takeCurved then "Q" else "P") i, named "MB" i] else []

theorem roundNames_eq_stops :
    roundNames segments = segments.zipIdx.flatMap fun x => stops x.1 x.2 := by
  have hlap : ∀ x : Segment × Nat,
      ((lapLinks segments.length x.1 x.2).map fun l => l.src.name) = stops x.1 x.2 := by
    rintro ⟨s, i⟩
    unfold lapLinks stops via
    cases s.siding <;> cases s.takeCurved <;> rfl
  unfold roundNames round
  rw [List.map_flatMap]
  simp only [hlap]

end Ring

open TrackPlan.Example.Ring

/-- The track is the ring of the segments, and the loop goes once around it. -/
structure IsRing (segments : List Segment) (t : Track) (l : Loop) : Prop where
  sensorCount_eq :
    t.graph.sensorCount = 2 * segments.length + 4 * segments.countP Segment.siding
  loop_eq : t.loop = some l
  /-- The sensors between the segments are visited in order, and those of the sidings between
  them. -/
  nodes_eq : l.nodes.map t.graph.nameOf = segments.zipIdx.flatMap fun x => stops x.1 x.2
  /-- The loop passes the branch of each siding, in order, and takes the way asked for. -/
  branches_eq : l.branches.map (fun b => (t.graph.nameOf b.node, b.curved)) =
    (segments.zipIdx.filter (·.1.siding)).map fun x => (named "BA" x.2, x.1.takeCurved)
  totalDistance_eq : l.totalDistance t.graph = (segments.map lapLength).sum
  declaredCount_eq : t.mutexes.declaredCount = segments.countP Segment.siding
  length_members : ∀ group ∈ t.mutexes.groups, group.declared = true → group.members.length = 4

variable {segments : List Segment} {gap : Nat} {t : Track} {o : Options}

/-- What the records of a ring compile to is the ring. -/
theorem isRing_of_compileRecords (hne : segments ≠ [])
    (hlt : ∀ s ∈ segments, s.length < UInt32.size)
    (h : (compileRecords (entries segments gap) o).result = .ok t) : ∃ l, IsRing segments t l := by
  obtain ⟨r, hr, hc⟩ := compileRecords_eq_ok.1 h
  have hh := Registry.holds_ofRecords hr
  obtain ⟨hlink, -, hbuild, hextract⟩ := Registry.compile_eq_ok.1 hc
  rw [hh.mutexes_eq] at hbuild
  rw [hh.loop_eq] at hextract
  have hd : r.Draws t.graph (entries segments gap) :=
    ⟨(Registry.reachable_ofRecords hr).valid, hh, Registry.wires_of_link hlink⟩
  obtain ⟨hcount, hgroups⟩ := declared_groups hd (Registry.nodeCount_le_of_link hlink) hbuild
  cases hl : t.loop with
  | none =>
    -- there are steps, the first of them at the first sensor
    rw [hl, Calibration.extract_eq_ok_none_iff, ← List.map_eq_nil_iff (f := LoopStep.node),
      Calibration.map_openSteps, openRound_steps, roundNames_eq_stops] at hextract
    obtain ⟨s, rest, rfl⟩ := List.exists_cons_of_ne_nil hne
    cases hextract
  | some l =>
    rw [hl] at hextract
    exact ⟨l, {
      sensorCount_eq := by
        rw [hd.sensorCount_eq, addresses_entries, List.length_flatMap]
        simp only [addressPair, List.length_cons, List.length_nil]
        rw [List.map_const', List.sum_replicate, List.length_range, smul_eq_mul, sidingCount]
        omega
      loop_eq := hl
      nodes_eq := by rw [map_nameOf_nodes hd hextract, roundNames_eq_stops]
      branches_eq := map_branches hd hextract
      totalDistance_eq := totalDistance_eq hd hlink hlt hextract
      declaredCount_eq := hcount
      length_members := hgroups }⟩

/-- **Rings.** The text of a ring of at least two segments compiles, with its mutex groups and with
every distance required, if the addresses and the switches of its sidings fit the limit on nodes. It
compiles to the ring that it describes. -/
theorem compile_ring (segments : List Segment) (gap : Nat) (hn : 2 ≤ segments.length)
    (hlt : ∀ s ∈ segments, s.length < UInt32.size)
    (hfit : (segments.length + 2 * segments.countP Segment.siding - 1) * (2 + gap) + 2 +
      4 * segments.countP Segment.siding ≤ 65536) :
    ∃ t l, (compile (ringTrack segments gap ++ ringMutexes segments)
      { requireDistances := true }).result = .ok t ∧ IsRing segments t l := by
  have hne : segments ≠ [] := List.ne_nil_of_length_pos (by omega)
  obtain ⟨t, ht⟩ := exists_compileRecords (wellDescribed_entries hne hfit true)
  obtain ⟨l, hl⟩ := isRing_of_compileRecords hne hlt ht
  exact ⟨t, l, compile_of_compileRecords hlt ht, hl⟩

/-- A plain segment, and two sidings of which the loop takes one way each. -/
def threeSegments : List Segment := [.plain 500, ⟨800, true, true⟩, ⟨0, true, false⟩]

theorem compile_threeSegments : 2 ≤ threeSegments.length ∧
    (∀ s ∈ threeSegments, s.length < UInt32.size) ∧
    (threeSegments.length + 2 * threeSegments.countP Segment.siding - 1) * (2 + 3) + 2 +
      4 * threeSegments.countP Segment.siding ≤ 65536 ∧
    (threeSegments.map lapLength).sum = 1324 ∧
    ∃ t l, (compile (ringTrack threeSegments 3 ++ ringMutexes threeSegments)
      { requireDistances := true }).result = .ok t ∧ IsRing threeSegments t l := by
  have hn : 2 ≤ threeSegments.length := by decide
  have hlt : ∀ s ∈ threeSegments, s.length < UInt32.size := by decide
  have hfit : (threeSegments.length + 2 * threeSegments.countP Segment.siding - 1) * (2 + 3) + 2 +
      4 * threeSegments.countP Segment.siding ≤ 65536 := by decide
  exact ⟨hn, hlt, hfit, by decide, compile_ring threeSegments 3 hn hlt hfit⟩

example : (threeSegments.zipIdx.flatMap fun x => stops x.1 x.2) =
    ["F0", "F1", "BA1", "Q1", "MB1", "F2", "BA2", "P2", "MB2"] := by
  decide +kernel

end TrackPlan.Example
