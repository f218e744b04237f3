import Mathlib.Data.List.Rotate
import TrackPlan.Proofs.Ring.Records

/-!
# How the nodes of a ring are linked

The declarations of a ring lead from one node to the next exactly along its links, forwards between
the nodes and backwards between their reverses (`leads_iff`). The links of the calibration loop form
a round without repetitions (`map_dest_round`, `nodup_round`).
-/

namespace TrackPlan.Example.Ring

variable {segments : List Segment} {gap n i : Nat} {s : Segment} {l : Link} {x : Segment × Nat}

/-! ## The declarations of a ring -/

theorem mem_decls_iff {d : Decl} : d ∈ declsOf (entries segments gap) ↔
    (∃ x ∈ neighbours segments, d ∈ junctionDecls gap segments.length x) ∨
      ∃ y ∈ sidings segments, d ∈ sidingDecls gap segments.length y.2 y.1.2 := by
  rw [declsOf_entries, List.mem_append, List.mem_flatMap, List.mem_flatMap]

/-- A siding has a number among the sidings. -/
theorem exists_mem_sidings_iff : (∃ k, (x, k) ∈ sidings segments) ↔
    x ∈ segments.zipIdx ∧ x.1.siding = true := by
  have hx : (∃ k, (x, k) ∈ sidings segments) ↔ x ∈ segments.zipIdx.filter (·.1.siding) := by
    rw [List.mem_iff_getElem?]
    exact exists_congr fun k => List.mem_zipIdx_iff_getElem?
  rw [hx, List.mem_filter]

theorem exists_before (hx : x ∈ segments.zipIdx) : ∃ y, (y, x) ∈ neighbours segments := by
  rw [← map_snd_neighbours, List.mem_map] at hx
  obtain ⟨⟨y, _⟩, hy, rfl⟩ := hx
  exact ⟨y, hy⟩

theorem exists_after (hx : x ∈ segments.zipIdx) : ∃ y, (x, y) ∈ neighbours segments := by
  have hpos : 0 < segments.length := Nat.zero_lt_of_lt (lt_of_mem_zipIdx hx)
  have hlt := Nat.mod_lt (x.2 + 1) hpos
  refine ⟨(segments[(x.2 + 1) % segments.length], (x.2 + 1) % segments.length),
    mem_neighbours_iff.2 ⟨hx, ?_, rfl⟩⟩
  exact mem_zipIdx_iff.2 (List.getElem?_eq_getElem hlt)

theorem exists_siding (gap : Nat) (hx : x ∈ segments.zipIdx) (hs : x.1.siding = true) :
    ∃ k, ∀ d ∈ sidingDecls gap segments.length k x.2, d ∈ declsOf (entries segments gap) := by
  obtain ⟨k, hk⟩ := exists_mem_sidings_iff.2 ⟨hx, hs⟩
  exact ⟨k, fun d hd => mem_decls_iff.2 (Or.inr ⟨_, hk, hd⟩)⟩

/-- The nodes of a ring are spots, and their reverses are the reverse spots. -/
theorem exists_spot {d : Decl} (h : d ∈ declsOf (entries segments gap)) :
    ∃ a : Spot, d.name = a.name ∧ d.reverse = a.back.name := by
  rcases mem_decls_iff.1 h with ⟨x, -, h⟩ | ⟨y, -, h⟩
  · simp only [junctionDecls, List.mem_cons, List.not_mem_nil, or_false] at h
    rcases h with rfl | rfl <;> exact ⟨⟨_, x.2.2⟩, rfl, rfl⟩
  · simp only [sidingDecls, List.mem_cons, List.not_mem_nil, or_false] at h
    rcases h with rfl | rfl | rfl | rfl | rfl | rfl | rfl | rfl <;>
      exact ⟨⟨_, y.1.2⟩, rfl, rfl⟩

/-! ## Links in both directions -/

theorem mem_ringLinks_iff :
    l ∈ ringLinks segments ↔ ∃ x ∈ segments.zipIdx, l ∈ links segments.length x.1 x.2 :=
  List.mem_flatMap

theorem links_of_siding (hs : s.siding = true) : links n s i =
    [⟨⟨.f, i⟩, ⟨.ba, i⟩, quarter s⟩, ⟨⟨.ba, i⟩, ⟨.p, i⟩, quarter s⟩,
      ⟨⟨.ba, i⟩, ⟨.q, i⟩, quarter s + 10⟩, ⟨⟨.p, i⟩, ⟨.mb, i⟩, quarter s⟩,
      ⟨⟨.q, i⟩, ⟨.mb, i⟩, quarter s + 10⟩, ⟨⟨.mb, i⟩, next n i, quarter s⟩] :=
  if_pos hs

theorem links_of_plain (hs : ¬ s.siding = true) :
    links n s i = [⟨⟨.f, i⟩, next n i, max s.length 1⟩] :=
  if_neg hs

/-- The link travelled backwards. -/
def Link.reversed (l : Link) : Link := ⟨l.dest.back, l.src.back, l.length⟩

@[simp] theorem Link.reversed_reversed (l : Link) : l.reversed.reversed = l := by
  simp [Link.reversed]

/-- The links of a ring, travelled forwards and backwards. -/
def ways (segments : List Segment) : List Link :=
  ringLinks segments ++ (ringLinks segments).map Link.reversed

theorem mem_ways_of_mem (h : l ∈ ringLinks segments) : l ∈ ways segments :=
  List.mem_append_left _ h

theorem reversed_mem_ways_of_mem (h : l ∈ ringLinks segments) : l.reversed ∈ ways segments :=
  List.mem_append_right _ (List.mem_map_of_mem h)

theorem mem_ways_iff :
    l ∈ ways segments ↔ l ∈ ringLinks segments ∨ l.reversed ∈ ringLinks segments := by
  unfold ways
  rw [List.mem_append, List.mem_map]
  refine or_congr_right ⟨?_, fun h => ⟨l.reversed, h, l.reversed_reversed⟩⟩
  rintro ⟨l, hl, rfl⟩
  rwa [l.reversed_reversed]

theorem reversed_mem_ways (h : l ∈ ways segments) : l.reversed ∈ ways segments := by
  rw [mem_ways_iff] at h ⊢
  rw [l.reversed_reversed]
  exact h.symm

/-- A segment begins with a link from its sensor. -/
theorem exists_first_link (n : Nat) (s : Segment) (i : Nat) :
    ∃ length, ⟨⟨.f, i⟩, ahead n s i, length⟩ ∈ links n s i := by
  unfold links ahead
  cases s.siding <;> simp

/-- A segment ends with a link to the next sensor. -/
theorem exists_last_link (n : Nat) (s : Segment) (i : Nat) :
    ∃ l ∈ links n s i, l.dest = next n i ∧ l.src.back = behind s i := by
  unfold links behind
  cases s.siding <;> simp [Spot.back, Stem.back]

/-! ## Neighbours by name -/

variable {a b : String}

/-- What a ring declares leads along its links. -/
theorem exists_way_of_leads (h : Leads (declsOf (entries segments gap)) a b) :
    ∃ w ∈ ways segments, a = w.src.name ∧ b = w.dest.name := by
  obtain ⟨d, hd, rfl, hb⟩ := h
  rcases mem_decls_iff.1 hd with ⟨⟨x, y⟩, hxy, hd⟩ | ⟨⟨x, k⟩, hx, hd⟩
  · obtain ⟨hx, hy, hnext⟩ := mem_neighbours_iff.1 hxy
    simp only [junctionDecls, List.mem_cons, List.not_mem_nil, or_false] at hd
    rcases hd with rfl | rfl
    · obtain ⟨length, hl⟩ := exists_first_link segments.length y.1 y.2
      rw [Kind.successors, List.mem_singleton, entry_eq] at hb
      exact ⟨_, mem_ways_of_mem (mem_ringLinks_iff.2 ⟨y, hy, hl⟩), rfl, hb⟩
    · obtain ⟨l, hl, hdest, hsrc⟩ := exists_last_link segments.length x.1 x.2
      rw [Kind.successors, List.mem_singleton, exit_eq] at hb
      refine ⟨_, reversed_mem_ways_of_mem (mem_ringLinks_iff.2 ⟨x, hx, hl⟩), ?_, ?_⟩
      · rw [Link.reversed, hdest, next, ← hnext]
        rfl
      · rw [Link.reversed, hsrc, hb]
  · obtain ⟨hx, hs⟩ := exists_mem_sidings_iff.1 ⟨k, hx⟩
    have hway : ∀ l ∈ links segments.length x.1 x.2, l ∈ ringLinks segments := fun l hl =>
      mem_ringLinks_iff.2 ⟨x, hx, hl⟩
    rw [links_of_siding hs] at hway
    simp only [List.forall_mem_cons] at hway
    obtain ⟨hfa, hap, haq, hpb, hqb, hbf, -⟩ := hway
    simp only [sidingDecls, List.mem_cons, List.not_mem_nil, or_false] at hd
    rcases hd with rfl | rfl | rfl | rfl | rfl | rfl | rfl | rfl <;>
      simp only [Kind.successors, List.mem_cons, List.not_mem_nil, or_false] at hb
    · rcases hb with rfl | rfl
      · exact ⟨_, mem_ways_of_mem hap, rfl, rfl⟩
      · exact ⟨_, mem_ways_of_mem haq, rfl, rfl⟩
    · exact ⟨_, reversed_mem_ways_of_mem hfa, rfl, hb⟩
    · rcases hb with rfl | rfl
      · exact ⟨_, reversed_mem_ways_of_mem hpb, rfl, rfl⟩
      · exact ⟨_, reversed_mem_ways_of_mem hqb, rfl, rfl⟩
    · exact ⟨_, mem_ways_of_mem hbf, rfl, hb⟩
    · exact ⟨_, mem_ways_of_mem hpb, rfl, hb⟩
    · exact ⟨_, reversed_mem_ways_of_mem hap, rfl, hb⟩
    · exact ⟨_, mem_ways_of_mem hqb, rfl, hb⟩
    · exact ⟨_, reversed_mem_ways_of_mem haq, rfl, hb⟩

/-- The sensor before a segment leads into it. -/
theorem leads_ahead (gap : Nat) (hx : x ∈ segments.zipIdx) :
    Leads (declsOf (entries segments gap)) (⟨.f, x.2⟩ : Spot).name
      (ahead segments.length x.1 x.2).name := by
  obtain ⟨y, hy⟩ := exists_before hx
  refine ⟨_, mem_decls_iff.2 (Or.inl ⟨_, hy, List.mem_cons_self⟩), rfl, ?_⟩
  rw [← entry_eq]
  exact List.mem_cons_self

/-- The reverse of the sensor behind a segment leads into it. -/
theorem leads_behind (gap : Nat) (hx : x ∈ segments.zipIdx) :
    Leads (declsOf (entries segments gap)) (next segments.length x.2).back.name
      (behind x.1 x.2).name := by
  obtain ⟨y, hy⟩ := exists_after hx
  refine ⟨_, mem_decls_iff.2 (Or.inl ⟨_, hy, List.mem_cons_of_mem _ List.mem_cons_self⟩), ?_, ?_⟩
  · rw [next, ← (mem_neighbours_iff.1 hy).2.2]
    rfl
  · rw [← exit_eq]
    exact List.mem_cons_self

/-- Every link is declared, and so is the way back. -/
theorem leads_of_mem (h : l ∈ ringLinks segments) :
    Leads (declsOf (entries segments gap)) l.src.name l.dest.name ∧
      Leads (declsOf (entries segments gap)) l.reversed.src.name l.reversed.dest.name := by
  obtain ⟨⟨s, i⟩, hx, hl⟩ := mem_ringLinks_iff.1 h
  have hahead := leads_ahead gap hx
  have hbehind := leads_behind gap hx
  unfold ahead at hahead
  unfold behind at hbehind
  by_cases hs : s.siding = true
  · obtain ⟨k, hdecl⟩ := exists_siding gap hx hs
    simp only [sidingDecls, List.forall_mem_cons] at hdecl
    obtain ⟨hba, hma, hbb, hmb, hp, hpr, hq, hqr, -⟩ := hdecl
    rw [if_pos hs] at hahead hbehind
    rw [links_of_siding hs] at hl
    simp only [List.mem_cons, List.not_mem_nil, or_false] at hl
    rcases hl with rfl | rfl | rfl | rfl | rfl | rfl
    · exact ⟨hahead, _, hma, rfl, List.mem_cons_self⟩
    · exact ⟨⟨_, hba, rfl, List.mem_cons_self⟩, _, hpr, rfl, List.mem_cons_self⟩
    · exact ⟨⟨_, hba, rfl, List.mem_cons_of_mem _ List.mem_cons_self⟩, _, hqr, rfl,
        List.mem_cons_self⟩
    · exact ⟨⟨_, hp, rfl, List.mem_cons_self⟩, _, hbb, rfl, List.mem_cons_self⟩
    · exact ⟨⟨_, hq, rfl, List.mem_cons_self⟩, _, hbb, rfl,
        List.mem_cons_of_mem _ List.mem_cons_self⟩
    · exact ⟨⟨_, hmb, rfl, List.mem_cons_self⟩, hbehind⟩
  · rw [if_neg hs] at hahead hbehind
    rw [links_of_plain hs, List.mem_singleton] at hl
    subst hl
    exact ⟨hahead, hbehind⟩

/-- The nodes of a ring lead to each other along its links, in both directions. -/
theorem leads_iff : Leads (declsOf (entries segments gap)) a b ↔
    ∃ w ∈ ways segments, a = w.src.name ∧ b = w.dest.name := by
  refine ⟨exists_way_of_leads, ?_⟩
  rintro ⟨w, hw, rfl, rfl⟩
  rcases mem_ways_iff.1 hw with h | h
  · exact (leads_of_mem h).1
  · have hback : Leads (declsOf (entries segments gap)) w.reversed.reversed.src.name
        w.reversed.reversed.dest.name := (leads_of_mem h).2
    rwa [w.reversed_reversed] at hback

/-! ## The round of the loop -/

/-- The lap of a segment begins at its sensor and ends at the next one. -/
theorem exists_lap (n : Nat) (s : Segment) (i : Nat) :
    ∃ mid, (lapLinks n s i).map Link.src = ⟨.f, i⟩ :: mid ∧
      (lapLinks n s i).map Link.dest = mid ++ [next n i] := by
  unfold lapLinks
  split
  · exact ⟨[⟨.ba, i⟩, ⟨via s, i⟩, ⟨.mb, i⟩], rfl, rfl⟩
  · exact ⟨[], rfl, rfl⟩

/-- The links of some laps in a row lead on from each other. -/
theorem cons_map_dest_laps (l : List Segment) {m : Nat} (h : m + l.length ≤ n) :
    (⟨.f, m % n⟩ : Spot) :: ((l.zipIdx m).flatMap fun x => lapLinks n x.1 x.2).map Link.dest =
      ((l.zipIdx m).flatMap fun x => lapLinks n x.1 x.2).map Link.src ++
        [⟨.f, (m + l.length) % n⟩] := by
  induction l generalizing m with
  | nil => rfl
  | cons s rest ih =>
    rw [List.length_cons] at h ⊢
    obtain ⟨mid, hsrc, hdest⟩ := exists_lap n s m
    have hrest := ih (m := m + 1) (by omega)
    have hplace : m + (rest.length + 1) = m + 1 + rest.length := by omega
    rw [List.zipIdx_cons, List.flatMap_cons, List.map_append, List.map_append, hsrc, hdest, hplace,
      List.append_assoc, List.append_assoc, ← hrest, Nat.mod_eq_of_lt (by omega)]
    rfl

/-- The round is closed: each of its links ends where the next one begins. -/
theorem map_dest_round :
    (round segments).map Link.dest = ((round segments).map Link.src).rotate 1 := by
  have hround := cons_map_dest_laps segments (m := 0) (Nat.le_of_eq (Nat.zero_add segments.length))
  rw [Nat.zero_add, Nat.mod_self, Nat.zero_mod] at hround
  unfold round
  cases h : (segments.zipIdx.flatMap fun x => lapLinks segments.length x.1 x.2).map Link.src with
  | nil =>
    rw [List.map_eq_nil_iff] at h
    rw [h]
    rfl
  | cons a rest =>
    rw [h, List.cons_append, List.cons.injEq] at hround
    rw [hround.2, List.rotate_cons_succ, List.rotate_zero, hround.1]

theorem nodup_lap (n : Nat) (s : Segment) (i : Nat) : ((lapLinks n s i).map Link.src).Nodup := by
  unfold lapLinks via
  cases s.siding <;> cases s.takeCurved <;> simp

theorem number_of_mem_lap (h : l ∈ lapLinks n s i) : l.src.number = i := by
  unfold lapLinks at h
  split at h <;> simp only [List.mem_cons, List.not_mem_nil, or_false] at h
  · rcases h with rfl | rfl | rfl | rfl <;> rfl
  · rw [h]

/-- Segments have different numbers. -/
theorem pairwise_zipIdx (segments : List Segment) :
    segments.zipIdx.Pairwise fun x y => x.2 ≠ y.2 := by
  have hnumbers : (segments.zipIdx.map Prod.snd).Nodup := by
    rw [List.zipIdx_map_snd]
    exact List.nodup_range' 1
  exact List.pairwise_map.1 hnumbers

/-- The round passes every node once at most. -/
theorem nodup_round : ((round segments).map Link.src).Nodup := by
  unfold round
  rw [List.map_flatMap, List.nodup_flatMap]
  refine ⟨fun x _ => nodup_lap segments.length x.1 x.2, (pairwise_zipIdx segments).imp ?_⟩
  intro x y hxy a ha hb
  obtain ⟨l, hl, rfl⟩ := List.mem_map.1 ha
  obtain ⟨l', hl', heq⟩ := List.mem_map.1 hb
  exact hxy (by rw [← number_of_mem_lap hl, ← heq, number_of_mem_lap hl'])

/-- The names along the round. -/
def roundNames (segments : List Segment) : List String :=
  (round segments).map fun l => l.src.name

theorem roundNames_eq : roundNames segments = ((round segments).map Link.src).map Spot.name := by
  rw [roundNames, List.map_map]
  rfl

theorem zip_rotate_roundNames : (roundNames segments).zip ((roundNames segments).rotate 1) =
    (round segments).map fun l => (l.src.name, l.dest.name) := by
  have hdest : (roundNames segments).rotate 1 = (round segments).map fun l => l.dest.name := by
    rw [roundNames_eq, ← List.map_rotate, ← map_dest_round, List.map_map]
    rfl
  rw [hdest, roundNames, List.zip_map']

theorem nodup_roundNames : (roundNames segments).Nodup := by
  rw [roundNames_eq]
  exact nodup_round.map Spot.name_injective

end TrackPlan.Example.Ring
