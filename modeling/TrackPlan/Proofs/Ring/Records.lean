import TrackPlan.Proofs.Description
import TrackPlan.Proofs.Ring.Spots

/-!
# What the records of a ring declare

The records of a ring are written segment by segment. Here they are read again, with what each
declares: `declsOf_entries` lists the nodes, `distances_entries` the distances, `mutexes_entries`
the mutex groups and `steps_entries` the steps of the calibration loop. Distances and steps are told
by links, which name two spots and the length between them.
-/

namespace TrackPlan.Example.Ring

variable {segments : List Segment} {gap n k i : Nat} {s : Segment}

/-- Records without lines. -/
def unlined (records : List Record) : List LineRecord := records.map (LineRecord.mk 0)

theorem unlined_append (records more : List Record) :
    unlined (records ++ more) = unlined records ++ unlined more := List.map_append

/-- The records of a ring and of its mutex groups. -/
def entries (segments : List Segment) (gap : Nat) : List LineRecord :=
  unlined (track segments gap ++ mutexes segments)

/-! ## Links -/

/-- The way from one node of a ring to the next. -/
structure Link where
  src : Spot
  dest : Spot
  length : Nat
  deriving DecidableEq, Repr

/-- The sensor at which a segment ends. -/
def next (n i : Nat) : Spot := ⟨.f, (i + 1) % n⟩

/-- The length of the stretches of a siding; those of the curved way are longer by 10. -/
def quarter (s : Segment) : Nat := max (s.length / 4) 1

/-- The links of a segment, travelled forwards. -/
def links (n : Nat) (s : Segment) (i : Nat) : List Link :=
  if s.siding then
    [⟨⟨.f, i⟩, ⟨.ba, i⟩, quarter s⟩, ⟨⟨.ba, i⟩, ⟨.p, i⟩, quarter s⟩,
      ⟨⟨.ba, i⟩, ⟨.q, i⟩, quarter s + 10⟩, ⟨⟨.p, i⟩, ⟨.mb, i⟩, quarter s⟩,
      ⟨⟨.q, i⟩, ⟨.mb, i⟩, quarter s + 10⟩, ⟨⟨.mb, i⟩, next n i, quarter s⟩]
  else [⟨⟨.f, i⟩, next n i, max s.length 1⟩]

/-- The sensor that the calibration loop passes in a siding. -/
def via (s : Segment) : Stem := if s.takeCurved then .q else .p

/-- The length of the stretches before and behind that sensor. -/
def reach (s : Segment) : Nat := if s.takeCurved then quarter s + 10 else quarter s

/-- The links that the calibration loop takes in a segment. -/
def lapLinks (n : Nat) (s : Segment) (i : Nat) : List Link :=
  if s.siding then
    [⟨⟨.f, i⟩, ⟨.ba, i⟩, quarter s⟩, ⟨⟨.ba, i⟩, ⟨via s, i⟩, reach s⟩,
      ⟨⟨via s, i⟩, ⟨.mb, i⟩, reach s⟩, ⟨⟨.mb, i⟩, next n i, quarter s⟩]
  else [⟨⟨.f, i⟩, next n i, max s.length 1⟩]

/-- The loop takes links of the segment. -/
theorem lapLinks_subset : lapLinks n s i ⊆ links n s i := by
  unfold lapLinks links via reach
  cases s.siding <;> cases s.takeCurved <;> simp

/-- The links of a ring. -/
def ringLinks (segments : List Segment) : List Link :=
  segments.zipIdx.flatMap fun x => links segments.length x.1 x.2

/-- The links of the calibration loop of a ring. -/
def round (segments : List Segment) : List Link :=
  segments.zipIdx.flatMap fun x => lapLinks segments.length x.1 x.2

theorem round_subset : round segments ⊆ ringLinks segments := by
  intro l hl
  obtain ⟨x, hx, hl⟩ := List.mem_flatMap.1 hl
  exact List.mem_flatMap.2 ⟨x, hx, lapLinks_subset hl⟩

/-! ## The records, part by part -/

/-- Neighbouring segments, each after the one before it; the last one stands before the first. -/
def neighbours (segments : List Segment) : List ((Segment × Nat) × (Segment × Nat)) :=
  match segments.zipIdx.getLast? with
  | none => []
  | some last => (last :: segments.zipIdx).zip segments.zipIdx

/-- The record of the sensors between two segments. -/
def junction (gap n : Nat) (x : (Segment × Nat) × (Segment × Nat)) : Record :=
  sensorPair gap x.2.2 (named "F" x.2.2) (entry x.2.1 x.2.2 ((x.2.2 + 1) % n)) (named "R" x.2.2)
    (exit x.1.1 x.1.2)

theorem junctions_eq (previous : Segment × Nat) (l : List (Segment × Nat)) :
    junctions gap n previous l = ((previous :: l).zip l).map (junction gap n) := by
  induction l generalizing previous with
  | nil => rfl
  | cons x rest ih =>
    rw [List.zip_cons_cons, List.map_cons, ← ih]
    rfl

theorem track_eq : track segments gap =
    (neighbours segments).map (junction gap segments.length) ++
      stretches gap segments.length 0 segments.zipIdx ++
        segments.zipIdx.flatMap fun (s, i) => lap s i := by
  unfold track neighbours
  dsimp only
  cases hlast : segments.zipIdx.getLast? with
  | none =>
    rw [List.getLast?_eq_none_iff.1 hlast]
    rfl
  | some last =>
    dsimp only
    rw [junctions_eq]

theorem entries_eq : entries segments gap =
    unlined ((neighbours segments).map (junction gap segments.length)) ++
      unlined (stretches gap segments.length 0 segments.zipIdx) ++
        unlined (segments.zipIdx.flatMap fun (s, i) => lap s i) ++ unlined (mutexes segments) := by
  unfold entries
  rw [track_eq, unlined_append, unlined_append, unlined_append]

/-- A segment is listed with its place. -/
theorem mem_zipIdx_iff {x : Segment × Nat} : x ∈ segments.zipIdx ↔ segments[x.2]? = some x.1 :=
  List.mem_zipIdx_iff_getElem?

theorem getElem?_zipIdx_iff {x : Segment × Nat} {j : Nat} :
    segments.zipIdx[j]? = some x ↔ x.2 = j ∧ x ∈ segments.zipIdx := by
  obtain ⟨s, i⟩ := x
  rw [mem_zipIdx_iff, List.getElem?_zipIdx, Option.map_eq_some_iff]
  constructor
  · rintro ⟨_, hs, h⟩
    cases h
    exact ⟨Nat.zero_add j, by rwa [Nat.zero_add]⟩
  · rintro ⟨rfl, hs⟩
    exact ⟨s, hs, by rw [Nat.zero_add]⟩

theorem lt_of_mem_zipIdx {x : Segment × Nat} (h : x ∈ segments.zipIdx) : x.2 < segments.length :=
  (List.getElem?_eq_some_iff.1 (mem_zipIdx_iff.1 h)).1

/-- Neighbouring segments have consecutive numbers, around the ring. -/
theorem mem_neighbours_iff {x y : Segment × Nat} : (x, y) ∈ neighbours segments ↔
    x ∈ segments.zipIdx ∧ y ∈ segments.zipIdx ∧ y.2 = (x.2 + 1) % segments.length := by
  unfold neighbours
  cases hlast : segments.zipIdx.getLast? with
  | none =>
    rw [List.getLast?_eq_none_iff.1 hlast]
    simp
  | some last =>
    rw [List.getLast?_eq_getElem?, List.length_zipIdx, getElem?_zipIdx_iff] at hlast
    obtain ⟨hnumber, hmem⟩ := hlast
    have hpos := lt_of_mem_zipIdx hmem
    dsimp only
    rw [List.mem_iff_getElem?]
    simp only [List.getElem?_zip_eq_some, getElem?_zipIdx_iff]
    constructor
    · rintro ⟨j, hx, hj, hy⟩
      have hlt := lt_of_mem_zipIdx hy
      cases j with
      | zero =>
        cases hx
        refine ⟨hmem, hy, ?_⟩
        rw [hj, hnumber, Nat.sub_add_cancel (by omega), Nat.mod_self]
      | succ j =>
        rw [List.getElem?_cons_succ, getElem?_zipIdx_iff] at hx
        refine ⟨hx.2, hy, ?_⟩
        rw [hj, hx.1, Nat.mod_eq_of_lt (by omega)]
    · rintro ⟨hx, hy, hxy⟩
      have hlt := lt_of_mem_zipIdx hx
      by_cases hend : x.2 + 1 = segments.length
      · -- the last segment stands before the first
        have hplace : x.2 = last.2 := by omega
        have hsame := (mem_zipIdx_iff.1 hx).symm.trans (hplace ▸ mem_zipIdx_iff.1 hmem)
        refine ⟨0, ?_, by rw [hxy, hend, Nat.mod_self], hy⟩
        rw [List.getElem?_cons_zero, Option.some.injEq]
        exact Prod.ext (Option.some.inj hsame).symm hplace.symm
      · rw [Nat.mod_eq_of_lt (by omega)] at hxy
        refine ⟨x.2 + 1, ?_, hxy, hy⟩
        rw [List.getElem?_cons_succ, getElem?_zipIdx_iff]
        exact ⟨rfl, hx⟩

theorem map_snd_neighbours : (neighbours segments).map Prod.snd = segments.zipIdx := by
  unfold neighbours
  cases hlast : segments.zipIdx.getLast? with
  | none => rw [List.getLast?_eq_none_iff.1 hlast, List.map_nil]
  | some last => exact List.map_snd_zip (by simp)

/-- A step of the loop is all that a record of a lap declares. -/
theorem eq_calibration_of_mem_laps {l : List (Segment × Nat)} {record : Record}
    (h : record ∈ l.flatMap fun (s, i) => lap s i) : ∃ a : Spot, record = .calibration a.name := by
  obtain ⟨⟨s, i⟩, -, h⟩ := List.mem_flatMap.1 h
  have hvia : named (if s.takeCurved = true then "Q" else "P") i = (⟨via s, i⟩ : Spot).name := by
    unfold via
    cases s.takeCurved <;> rfl
  unfold lap at h
  dsimp only at h
  rw [hvia] at h
  split at h
  · simp only [List.mem_cons, List.not_mem_nil, or_false] at h
    rcases h with rfl | rfl | rfl | rfl
    · exact ⟨⟨.f, i⟩, rfl⟩
    · exact ⟨⟨.ba, i⟩, rfl⟩
    · exact ⟨⟨via s, i⟩, rfl⟩
    · exact ⟨⟨.mb, i⟩, rfl⟩
  · exact ⟨⟨.f, i⟩, List.mem_singleton.1 h⟩

theorem mem_mutexes_iff {record : Record} : record ∈ mutexes segments ↔
    ∃ x ∈ segments.zipIdx, x.1.siding = true ∧
      record = .mutex [((⟨.ba, x.2⟩ : Spot).name, (⟨.p, x.2⟩ : Spot).name)] := by
  unfold mutexes
  rw [List.mem_filterMap]
  refine exists_congr fun x => and_congr_right fun _ => ?_
  obtain ⟨s, i⟩ := x
  dsimp only
  by_cases hs : s.siding = true
  · rw [if_pos hs, Option.some.injEq, eq_comm, and_iff_right hs]
    exact Iff.rfl
  · rw [if_neg hs]
    simp [hs]

/-- Records that declare nothing of a kind. -/
theorem filterMap_unlined_eq_nil {α : Type} {f : LineRecord → Option α} {records : List Record}
    (h : ∀ r ∈ records, f ⟨0, r⟩ = none) : (unlined records).filterMap f = [] := by
  unfold unlined
  rw [List.filterMap_map]
  exact List.filterMap_eq_nil_iff.2 h

/-! ## Nodes -/

/-- The sensor between two segments, and its reverse. -/
def junctionDecls (gap n : Nat) (x : (Segment × Nat) × (Segment × Nat)) : List Decl :=
  [⟨(⟨.f, x.2.2⟩ : Spot).name, (⟨.r, x.2.2⟩ : Spot).name,
      .sensor (address gap x.2.2) (entry x.2.1 x.2.2 ((x.2.2 + 1) % n)), 0⟩,
    ⟨(⟨.r, x.2.2⟩ : Spot).name, (⟨.f, x.2.2⟩ : Spot).name,
      .sensor (address gap x.2.2 + 1) (exit x.1.1 x.1.2), 0⟩]

/-- The sidings, each with its number among the segments and with its number among the sidings. -/
def sidings (segments : List Segment) : List ((Segment × Nat) × Nat) :=
  (segments.zipIdx.filter (·.1.siding)).zipIdx

/-- The nodes within the `k`-th siding. -/
def sidingDecls (gap n k i : Nat) : List Decl :=
  [⟨(⟨.ba, i⟩ : Spot).name, (⟨.ma, i⟩ : Spot).name, .branch (UInt32.ofNat (2 * k + 1))
      (⟨.p, i⟩ : Spot).name (⟨.q, i⟩ : Spot).name, 0⟩,
    ⟨(⟨.ma, i⟩ : Spot).name, (⟨.ba, i⟩ : Spot).name, .merge (UInt32.ofNat (2 * k + 1))
      (⟨.r, i⟩ : Spot).name, 0⟩,
    ⟨(⟨.bb, i⟩ : Spot).name, (⟨.mb, i⟩ : Spot).name, .branch (UInt32.ofNat (2 * k + 2))
      (⟨.pr, i⟩ : Spot).name (⟨.qr, i⟩ : Spot).name, 0⟩,
    ⟨(⟨.mb, i⟩ : Spot).name, (⟨.bb, i⟩ : Spot).name, .merge (UInt32.ofNat (2 * k + 2))
      (next n i).name, 0⟩,
    ⟨(⟨.p, i⟩ : Spot).name, (⟨.pr, i⟩ : Spot).name,
      .sensor (address gap (n + 2 * k)) (⟨.mb, i⟩ : Spot).name, 0⟩,
    ⟨(⟨.pr, i⟩ : Spot).name, (⟨.p, i⟩ : Spot).name,
      .sensor (address gap (n + 2 * k) + 1) (⟨.ma, i⟩ : Spot).name, 0⟩,
    ⟨(⟨.q, i⟩ : Spot).name, (⟨.qr, i⟩ : Spot).name,
      .sensor (address gap (n + 2 * k + 1)) (⟨.mb, i⟩ : Spot).name, 0⟩,
    ⟨(⟨.qr, i⟩ : Spot).name, (⟨.q, i⟩ : Spot).name,
      .sensor (address gap (n + 2 * k + 1) + 1) (⟨.ma, i⟩ : Spot).name, 0⟩]

theorem declsOf_junctions (l : List ((Segment × Nat) × (Segment × Nat))) :
    declsOf (unlined (l.map (junction gap n))) = l.flatMap (junctionDecls gap n) := by
  unfold declsOf unlined
  rw [List.map_map, List.flatMap_map]
  rfl

theorem declsOf_stretches (l : List (Segment × Nat)) :
    declsOf (unlined (stretches gap n k l)) =
      ((l.filter (·.1.siding)).zipIdx k).flatMap fun x => sidingDecls gap n x.2 x.1.2 := by
  induction l generalizing k with
  | nil => rfl
  | cons x rest ih =>
    obtain ⟨s, i⟩ := x
    unfold stretches
    rw [List.filter_cons]
    by_cases hs : s.siding = true
    · have hsiding : declsOf (unlined (siding gap n k s i)) = sidingDecls gap n k i := rfl
      rw [if_pos hs, if_pos hs, List.zipIdx_cons, List.flatMap_cons, unlined_append,
        declsOf_append, ih, hsiding]
    · rw [if_neg hs, if_neg hs, ← ih]
      rfl

/-- The nodes of a ring: those between the segments, then those of the sidings. -/
theorem declsOf_entries : declsOf (entries segments gap) =
    (neighbours segments).flatMap (junctionDecls gap segments.length) ++
      (sidings segments).flatMap fun x => sidingDecls gap segments.length x.2 x.1.2 := by
  have hnone : ∀ records : List Record, (∀ r ∈ records, (⟨0, r⟩ : LineRecord).halves = []) →
      declsOf (unlined records) = [] := by
    intro records h
    unfold declsOf unlined
    rw [List.flatMap_map]
    exact List.flatMap_eq_nil_iff.2 h
  have hlaps : declsOf (unlined (segments.zipIdx.flatMap fun (s, i) => lap s i)) = [] := by
    refine hnone _ fun r hr => ?_
    obtain ⟨a, rfl⟩ := eq_calibration_of_mem_laps hr
    rfl
  have hmutexes : declsOf (unlined (mutexes segments)) = [] := by
    refine hnone _ fun r hr => ?_
    obtain ⟨x, -, -, rfl⟩ := mem_mutexes_iff.1 hr
    rfl
  rw [entries_eq, declsOf_append, declsOf_append, declsOf_append, hlaps, hmutexes, List.append_nil,
    List.append_nil, declsOf_junctions, declsOf_stretches]
  rfl

/-! ## Distances, mutex groups and steps -/

/-- The distance record of a link. -/
def Link.decl (l : Link) : DistanceDecl := ⟨l.src.name, l.dest.name, UInt32.ofNat l.length, 0⟩

/-- The distances within a siding. -/
theorem distances_siding (hs : s.siding = true) :
    (unlined (siding gap n k s i)).filterMap LineRecord.distance? =
      (links n s i).map Link.decl := by
  have hquarter : max (quarter s) 1 = quarter s := Nat.max_eq_left (Nat.le_max_right ..)
  have hcurved : max (quarter s + 10) 1 = quarter s + 10 := Nat.max_eq_left (by omega)
  unfold links
  rw [if_pos hs, siding]
  simp only [measured]
  rw [← quarter, hquarter, hcurved]
  rfl

theorem distances_stretches (l : List (Segment × Nat)) :
    (unlined (stretches gap n k l)).filterMap LineRecord.distance? =
      (l.flatMap fun x => links n x.1 x.2).map Link.decl := by
  induction l generalizing k with
  | nil => rfl
  | cons x rest ih =>
    obtain ⟨s, i⟩ := x
    unfold stretches
    rw [List.flatMap_cons, List.map_append]
    by_cases hs : s.siding = true
    · rw [if_pos hs, unlined_append, List.filterMap_append, distances_siding hs, ih]
    · have hplain : (links n s i).map Link.decl =
          [⟨named "F" i, named "F" ((i + 1) % n), UInt32.ofNat (max s.length 1), 0⟩] := by
        unfold links
        rw [if_neg hs]
        rfl
      rw [if_neg hs, hplain, ← ih]
      rfl

theorem distances_entries : (entries segments gap).filterMap LineRecord.distance? =
    (ringLinks segments).map Link.decl := by
  have hjunctions : (unlined ((neighbours segments).map (junction gap segments.length))).filterMap
      LineRecord.distance? = [] := by
    refine filterMap_unlined_eq_nil fun r hr => ?_
    obtain ⟨x, -, rfl⟩ := List.mem_map.1 hr
    rfl
  have hlaps : (unlined (segments.zipIdx.flatMap fun (s, i) => lap s i)).filterMap
      LineRecord.distance? = [] := by
    refine filterMap_unlined_eq_nil fun r hr => ?_
    obtain ⟨a, rfl⟩ := eq_calibration_of_mem_laps hr
    rfl
  have hmutexes : (unlined (mutexes segments)).filterMap LineRecord.distance? = [] := by
    refine filterMap_unlined_eq_nil fun r hr => ?_
    obtain ⟨x, -, -, rfl⟩ := mem_mutexes_iff.1 hr
    rfl
  rw [entries_eq, List.filterMap_append, List.filterMap_append, List.filterMap_append, hjunctions,
    hlaps, hmutexes, distances_stretches, List.nil_append, List.append_nil, List.append_nil]
  rfl

theorem exists_of_mem_stretches {l : List (Segment × Nat)} {record : Record}
    (h : record ∈ stretches gap n k l) : ∃ x ∈ l, (∃ j, record ∈ siding gap n j x.1 x.2) ∨
      record = measured (⟨.f, x.2⟩ : Spot).name (next n x.2).name x.1.length := by
  induction l generalizing k with
  | nil => cases h
  | cons x rest ih =>
    obtain ⟨s, i⟩ := x
    have hlater {k : Nat} (h : record ∈ stretches gap n k rest) := ih h
    simp only [List.mem_cons, exists_eq_or_imp]
    unfold stretches at h
    split at h
    · rcases List.mem_append.1 h with h | h
      · exact Or.inl (Or.inl ⟨k, h⟩)
      · exact Or.inr (hlater h)
    · rcases List.mem_cons.1 h with rfl | h
      · exact Or.inl (Or.inr rfl)
      · exact Or.inr (hlater h)

/-- Stretches declare neither steps nor mutex groups. -/
theorem pending_of_mem_stretches {l : List (Segment × Nat)} {record : Record}
    (h : record ∈ stretches gap n k l) :
    (⟨0, record⟩ : LineRecord).mutex? = none ∧ (⟨0, record⟩ : LineRecord).step? = none := by
  obtain ⟨x, -, ⟨j, h⟩ | rfl⟩ := exists_of_mem_stretches h
  · simp only [siding, List.mem_cons, List.not_mem_nil, or_false] at h
    rcases h with rfl | rfl | rfl | rfl | rfl | rfl | rfl | rfl | rfl | rfl <;> exact ⟨rfl, rfl⟩
  · exact ⟨rfl, rfl⟩

/-- The mutex group of a siding, seeded by its straight way. -/
def guard (i : Nat) : MutexDecl := ⟨[((⟨.ba, i⟩ : Spot).name, (⟨.p, i⟩ : Spot).name)], 0⟩

theorem mutexes_entries : (entries segments gap).filterMap LineRecord.mutex? =
    (segments.zipIdx.filter (·.1.siding)).map fun x => guard x.2 := by
  have hjunctions : (unlined ((neighbours segments).map (junction gap segments.length))).filterMap
      LineRecord.mutex? = [] := by
    refine filterMap_unlined_eq_nil fun r hr => ?_
    obtain ⟨x, -, rfl⟩ := List.mem_map.1 hr
    rfl
  have hlaps : (unlined (segments.zipIdx.flatMap fun (s, i) => lap s i)).filterMap
      LineRecord.mutex? = [] := by
    refine filterMap_unlined_eq_nil fun r hr => ?_
    obtain ⟨a, rfl⟩ := eq_calibration_of_mem_laps hr
    rfl
  have hmutexes : ∀ l : List (Segment × Nat), (unlined (l.filterMap fun (s, i) =>
      if s.siding then some (.mutex [(named "BA" i, named "P" i)]) else none)).filterMap
        LineRecord.mutex? = (l.filter (·.1.siding)).map fun x => guard x.2 := by
    intro l
    induction l with
    | nil => rfl
    | cons x rest ih =>
      obtain ⟨s, i⟩ := x
      rw [List.filter_cons, List.filterMap_cons]
      dsimp only
      by_cases hs : s.siding = true
      · rw [if_pos hs, if_pos hs, List.map_cons, ← ih]
        rfl
      · rw [if_neg hs, if_neg hs, ← ih]
  rw [entries_eq, List.filterMap_append, List.filterMap_append, List.filterMap_append, hjunctions,
    filterMap_unlined_eq_nil fun r hr => (pending_of_mem_stretches hr).1, hlaps, List.nil_append,
    List.nil_append]
  exact hmutexes segments.zipIdx

/-- The steps of a lap name the nodes that its links leave. -/
theorem steps_lap : (unlined (lap s i)).filterMap LineRecord.step? =
    (lapLinks n s i).map fun l => ⟨l.src.name, 0⟩ := by
  unfold lap lapLinks via
  dsimp only
  by_cases hs : s.siding = true
  · rw [if_pos hs, if_pos hs]
    cases s.takeCurved <;> rfl
  · rw [if_neg hs, if_neg hs]
    rfl

theorem steps_entries : (entries segments gap).filterMap LineRecord.step? =
    (round segments).map fun l => ⟨l.src.name, 0⟩ := by
  have hjunctions : (unlined ((neighbours segments).map (junction gap segments.length))).filterMap
      LineRecord.step? = [] := by
    refine filterMap_unlined_eq_nil fun r hr => ?_
    obtain ⟨x, -, rfl⟩ := List.mem_map.1 hr
    rfl
  have hmutexes : (unlined (mutexes segments)).filterMap LineRecord.step? = [] := by
    refine filterMap_unlined_eq_nil fun r hr => ?_
    obtain ⟨x, -, -, rfl⟩ := mem_mutexes_iff.1 hr
    rfl
  have hlaps : ∀ l : List (Segment × Nat),
      (unlined (l.flatMap fun (s, i) => lap s i)).filterMap LineRecord.step? =
        (l.flatMap fun x => lapLinks segments.length x.1 x.2).map fun l => ⟨l.src.name, 0⟩ := by
    intro l
    induction l with
    | nil => rfl
    | cons x rest ih =>
      rw [List.flatMap_cons, List.flatMap_cons, unlined_append, List.filterMap_append,
        List.map_append, ih]
      exact congrArg (· ++ _) steps_lap
  rw [entries_eq, List.filterMap_append, List.filterMap_append, List.filterMap_append, hjunctions,
    filterMap_unlined_eq_nil fun r hr => (pending_of_mem_stretches hr).2, hmutexes, hlaps,
    List.nil_append, List.nil_append, List.append_nil]
  rfl

/-! ## The text -/

/-- The names of spots are words. -/
theorem named_of_names_eq {record : Record} (spots : List Spot)
    (h : record.names = spots.map Spot.name) : record.Named := by
  unfold Record.Named
  rw [h, List.forall_mem_map]
  exact fun a _ => a.isName

/-- A length is written with at least one millimeter. -/
theorem sound_measured {src dest : String} {length : Nat} (h : length < UInt32.size) :
    (measured src dest length).Sound := by
  show UInt32.ofNat (max length 1) ≠ 0
  have hlt : max length 1 < UInt32.size := Nat.max_lt.2 ⟨h, by decide⟩
  rw [ne_eq, ← UInt32.toNat_inj, UInt32.toNat_ofNat_of_lt' hlt]
  exact Nat.ne_of_gt (Nat.le_max_right length 1)

theorem quarter_le (s : Segment) : quarter s ≤ s.length / 4 + 1 := by
  unfold quarter
  omega

theorem named_and_sound_of_mem_siding {record : Record} (hlt : s.length < UInt32.size)
    (h : record ∈ siding gap n k s i) : record.Named ∧ record.Sound := by
  have hquarter : quarter s + 10 < UInt32.size := by
    have := quarter_le s
    have : UInt32.size = 4294967296 := rfl
    omega
  have hshort : quarter s < UInt32.size := by omega
  simp only [siding, List.mem_cons, List.not_mem_nil, or_false] at h
  rcases h with rfl | rfl | rfl | rfl | rfl | rfl | rfl | rfl | rfl | rfl
  · exact ⟨named_of_names_eq [⟨.ba, i⟩, ⟨.p, i⟩, ⟨.q, i⟩, ⟨.ma, i⟩, ⟨.r, i⟩] rfl, trivial⟩
  · exact ⟨named_of_names_eq [⟨.bb, i⟩, ⟨.pr, i⟩, ⟨.qr, i⟩, ⟨.mb, i⟩, next n i] rfl, trivial⟩
  · exact ⟨named_of_names_eq [⟨.p, i⟩, ⟨.mb, i⟩, ⟨.pr, i⟩, ⟨.ma, i⟩] rfl, trivial⟩
  · exact ⟨named_of_names_eq [⟨.q, i⟩, ⟨.mb, i⟩, ⟨.qr, i⟩, ⟨.ma, i⟩] rfl, trivial⟩
  · exact ⟨named_of_names_eq [⟨.f, i⟩, ⟨.ba, i⟩] rfl, sound_measured hshort⟩
  · exact ⟨named_of_names_eq [⟨.ba, i⟩, ⟨.p, i⟩] rfl, sound_measured hshort⟩
  · exact ⟨named_of_names_eq [⟨.ba, i⟩, ⟨.q, i⟩] rfl, sound_measured hquarter⟩
  · exact ⟨named_of_names_eq [⟨.p, i⟩, ⟨.mb, i⟩] rfl, sound_measured hshort⟩
  · exact ⟨named_of_names_eq [⟨.q, i⟩, ⟨.mb, i⟩] rfl, sound_measured hquarter⟩
  · exact ⟨named_of_names_eq [⟨.mb, i⟩, next n i] rfl, sound_measured hshort⟩

/-- How the sensor before a segment goes on, as a spot. -/
def ahead (n : Nat) (s : Segment) (i : Nat) : Spot := if s.siding then ⟨.ba, i⟩ else next n i

/-- How the reverse of the sensor behind a segment goes on, as a spot. -/
def behind (s : Segment) (i : Nat) : Spot := if s.siding then ⟨.bb, i⟩ else ⟨.r, i⟩

theorem entry_eq : entry s i ((i + 1) % n) = (ahead n s i).name := by
  unfold entry ahead
  split <;> rfl

theorem exit_eq : exit s i = (behind s i).name := by
  unfold exit behind
  split <;> rfl

/-- The records of a ring have names that are words, and lengths that fit 32 bits. -/
theorem named_and_sound {record : Record} (hlt : ∀ s ∈ segments, s.length < UInt32.size)
    (h : record ∈ track segments gap ++ mutexes segments) : record.Named ∧ record.Sound := by
  have hlength : ∀ x ∈ segments.zipIdx, x.1.length < UInt32.size := fun x hx =>
    hlt x.1 (List.mem_of_getElem? (mem_zipIdx_iff.1 hx))
  rw [track_eq, List.mem_append, List.mem_append, List.mem_append] at h
  rcases h with ((h | h) | h) | h
  · obtain ⟨⟨⟨before, j⟩, s, i⟩, -, rfl⟩ := List.mem_map.1 h
    refine ⟨named_of_names_eq [⟨.f, i⟩, ahead segments.length s i, ⟨.r, i⟩, behind before j] ?_,
      trivial⟩
    rw [List.map_cons, List.map_cons, ← entry_eq, List.map_cons, List.map_cons, ← exit_eq]
    rfl
  · obtain ⟨x, hx, ⟨j, h⟩ | rfl⟩ := exists_of_mem_stretches h
    · exact named_and_sound_of_mem_siding (hlength x hx) h
    · exact ⟨named_of_names_eq [⟨.f, x.2⟩, next segments.length x.2] rfl,
        sound_measured (hlength x hx)⟩
  · obtain ⟨a, rfl⟩ := eq_calibration_of_mem_laps h
    exact ⟨named_of_names_eq [a] rfl, trivial⟩
  · obtain ⟨x, -, -, rfl⟩ := mem_mutexes_iff.1 h
    exact ⟨named_of_names_eq [⟨.ba, x.2⟩, ⟨.p, x.2⟩] rfl, by simp [Record.Sound]⟩

end TrackPlan.Example.Ring
