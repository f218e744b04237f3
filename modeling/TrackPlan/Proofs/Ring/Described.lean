import Mathlib.Algebra.Group.Action.Defs
import Mathlib.Algebra.Order.BigOperators.Group.List
import Mathlib.Algebra.Order.Ring.Nat
import Mathlib.Data.List.MinMax
import TrackPlan.Proofs.Ring.Links

/-!
# Rings are well described

The records of a ring of at least one segment are well described, whether or not distances are
required, as long as the nodes fit (`wellDescribed_entries`).

1. `nodup_names` and `nodup_addresses`: nothing is declared twice.
2. `addressSpan_le`, `countP_not_sensor`: how much place the nodes take.
3. `leadsBack_entries`, `covers_entries` and `closedRound_roundNames` come down to the links.
-/

namespace TrackPlan.Example.Ring

variable {segments : List Segment} {gap n k m : Nat} {a b : String}

/-- The number of sidings. -/
def sidingCount (segments : List Segment) : Nat := segments.countP Segment.siding

theorem length_sidings : (sidings segments).length = sidingCount segments := by
  have hcount : segments.zipIdx.countP (·.1.siding) =
      (segments.zipIdx.map Prod.fst).countP Segment.siding := by
    rw [List.countP_map]
    rfl
  unfold sidings sidingCount
  rw [List.length_zipIdx, ← List.countP_eq_length_filter, hcount, List.zipIdx_map_fst]

/-! ## Names -/

/-- The spots between the segments. -/
def junctionSpots (i : Nat) : List Spot := [⟨.f, i⟩, ⟨.r, i⟩]

/-- The spots within a siding. -/
def sidingSpots (i : Nat) : List Spot :=
  [⟨.ba, i⟩, ⟨.ma, i⟩, ⟨.bb, i⟩, ⟨.mb, i⟩, ⟨.p, i⟩, ⟨.pr, i⟩, ⟨.q, i⟩, ⟨.qr, i⟩]

/-- The spots of a ring. -/
def ringSpots (segments : List Segment) : List Spot :=
  (segments.zipIdx.flatMap fun x => junctionSpots x.2) ++
    (segments.zipIdx.filter (·.1.siding)).flatMap fun x => sidingSpots x.2

theorem map_name_decls :
    (declsOf (entries segments gap)).map Decl.name = (ringSpots segments).map Spot.name := by
  unfold ringSpots
  rw [declsOf_entries, List.map_append, List.map_append, List.map_flatMap, List.map_flatMap,
    List.map_flatMap, List.map_flatMap]
  congr 1
  · conv_rhs => rw [← map_snd_neighbours, List.flatMap_map]
    rfl
  · conv_rhs => rw [← List.zipIdx_map_fst 0 (segments.zipIdx.filter _), List.flatMap_map]
    rfl

theorem nodup_ringSpots : (ringSpots segments).Nodup := by
  have hjunction : ∀ {i a}, a ∈ junctionSpots i → a.number = i ∧ a.stem ∈ [Stem.f, .r] := by
    intro i a ha
    simp only [junctionSpots, List.mem_cons, List.not_mem_nil, or_false] at ha
    rcases ha with rfl | rfl <;> exact ⟨rfl, by simp⟩
  have hsiding : ∀ {i a}, a ∈ sidingSpots i → a.number = i ∧ a.stem ∉ [Stem.f, .r] := by
    intro i a ha
    simp only [sidingSpots, List.mem_cons, List.not_mem_nil, or_false] at ha
    rcases ha with rfl | rfl | rfl | rfl | rfl | rfl | rfl | rfl <;> exact ⟨rfl, by simp⟩
  unfold ringSpots
  rw [List.nodup_append']
  refine ⟨List.nodup_flatMap.2 ⟨fun x _ => ?_, ?_⟩, List.nodup_flatMap.2 ⟨fun x _ => ?_, ?_⟩, ?_⟩
  · simp [junctionSpots]
  · refine (pairwise_zipIdx segments).imp ?_
    intro x y hxy a ha hb
    exact hxy ((hjunction ha).1.symm.trans (hjunction hb).1)
  · simp [sidingSpots]
  · refine ((pairwise_zipIdx segments).filter _).imp ?_
    intro x y hxy a ha hb
    exact hxy ((hsiding ha).1.symm.trans (hsiding hb).1)
  · intro a ha hb
    obtain ⟨x, -, ha⟩ := List.mem_flatMap.1 ha
    obtain ⟨y, -, hb⟩ := List.mem_flatMap.1 hb
    exact (hsiding hb).2 (hjunction ha).2

theorem nodup_names : ((declsOf (entries segments gap)).map Decl.name).Nodup := by
  rw [map_name_decls]
  exact nodup_ringSpots.map Spot.name_injective

/-! ## Addresses -/

/-- A pair of addresses. -/
def addressPair (gap k : Nat) : List UInt32 := [address gap k, address gap k + 1]

/-- The sidings take two address pairs each, behind those of the segments. -/
theorem flatMap_pairs (n s : Nat) :
    (List.range s).flatMap (fun k => [n + 2 * k, n + 2 * k + 1]) = List.range' n (2 * s) := by
  induction s with
  | zero => rfl
  | succ s ih =>
    rw [List.range_succ, List.flatMap_append, ih, List.flatMap_singleton, Nat.mul_succ,
      List.range'_append_1 |>.symm]
    rfl

/-- The addresses of a ring: as many pairs in a row as there are segments, and two for each
siding. -/
theorem addresses_entries : (declsOf (entries segments gap)).filterMap (·.kind.address?) =
    (List.range (segments.length + 2 * sidingCount segments)).flatMap (addressPair gap) := by
  have hjunctions : ((neighbours segments).flatMap (junctionDecls gap segments.length)).filterMap
      (·.kind.address?) = (List.range segments.length).flatMap (addressPair gap) := by
    have hnumbers : (neighbours segments).map (fun x => x.2.2) = List.range segments.length := by
      rw [List.range_eq_range', ← List.zipIdx_map_snd 0 segments, ← map_snd_neighbours,
        List.map_map]
      rfl
    rw [← hnumbers, List.flatMap_map, List.filterMap_flatMap]
    rfl
  have hsidings : ((sidings segments).flatMap fun x =>
      sidingDecls gap segments.length x.2 x.1.2).filterMap (·.kind.address?) =
        (List.range' segments.length (2 * sidingCount segments)).flatMap (addressPair gap) := by
    have hnumbers : (sidings segments).map Prod.snd = List.range (sidingCount segments) := by
      rw [← length_sidings, sidings, List.zipIdx_map_snd, List.length_zipIdx, List.range_eq_range']
    rw [← flatMap_pairs, ← hnumbers, List.flatMap_map, List.filterMap_flatMap, List.flatMap_assoc]
    rfl
  rw [declsOf_entries, List.filterMap_append, hjunctions, hsidings, ← List.flatMap_append,
    List.range_eq_range', List.range_eq_range', ← List.range'_append_1, Nat.zero_add]

/-- The places of an address pair, if the last of `m` pairs fits 32 bits. -/
theorem toNat_of_mem_pair {c : UInt32} (hm : (m - 1) * (2 + gap) + 2 ≤ UInt32.size) (hk : k < m)
    (hc : c ∈ addressPair gap k) : c.toNat = k * (2 + gap) ∨ c.toNat = k * (2 + gap) + 1 := by
  have hle : k * (2 + gap) ≤ (m - 1) * (2 + gap) := Nat.mul_le_mul_right _ (by omega)
  have hfirst : (address gap k).toNat = k * (2 + gap) :=
    UInt32.toNat_ofNat_of_lt' (by omega)
  simp only [addressPair, List.mem_cons, List.not_mem_nil, or_false] at hc
  rcases hc with rfl | rfl
  · exact Or.inl hfirst
  · refine Or.inr ?_
    rw [UInt32.toNat_add, hfirst, UInt32.toNat_one]
    exact Nat.mod_eq_of_lt (Nat.lt_of_lt_of_le (by omega) hm)

theorem nodup_addressPairs (hm : (m - 1) * (2 + gap) + 2 ≤ UInt32.size) :
    ((List.range m).flatMap (addressPair gap)).Nodup := by
  refine List.nodup_flatMap.2 ⟨fun k _ => ?_, List.pairwise_lt_range.imp_of_mem ?_⟩
  · simp [addressPair]
  · intro j k hj hk hjk c hcj hck
    have hplace : (j + 1) * (2 + gap) ≤ k * (2 + gap) := Nat.mul_le_mul_right _ hjk
    rw [Nat.succ_mul] at hplace
    have hj := toNat_of_mem_pair hm (List.mem_range.1 hj) hcj
    have hk := toNat_of_mem_pair hm (List.mem_range.1 hk) hck
    omega

theorem addressSpan_le
    (hm : (segments.length + 2 * sidingCount segments - 1) * (2 + gap) + 2 ≤ UInt32.size) :
    addressSpan (declsOf (entries segments gap)) ≤
      (segments.length + 2 * sidingCount segments - 1) * (2 + gap) + 2 := by
  unfold addressSpan
  rw [addresses_entries]
  refine List.max_le_of_forall_le _ _ (List.forall_mem_map.2 fun c hc => ?_)
  obtain ⟨k, hk, hc⟩ := List.mem_flatMap.1 hc
  rw [List.mem_range] at hk
  have hle : k * (2 + gap) ≤ (segments.length + 2 * sidingCount segments - 1) * (2 + gap) :=
    Nat.mul_le_mul_right _ (by omega)
  have hplace := toNat_of_mem_pair hm hk hc
  omega

/-- Each siding has two branches and two merges. -/
theorem countP_not_sensor : (declsOf (entries segments gap)).countP (·.kind.tag ≠ .sensor) =
    4 * sidingCount segments := by
  have hjunctions : ((neighbours segments).flatMap (junctionDecls gap segments.length)).countP
      (·.kind.tag ≠ .sensor) = 0 := by
    rw [List.countP_eq_zero]
    intro d hd
    obtain ⟨x, -, hd⟩ := List.mem_flatMap.1 hd
    simp only [junctionDecls, List.mem_cons, List.not_mem_nil, or_false] at hd
    rcases hd with rfl | rfl <;> simp [Kind.tag]
  have hsiding : ∀ x : (Segment × Nat) × Nat,
      (sidingDecls gap segments.length x.2 x.1.2).countP (·.kind.tag ≠ .sensor) = 4 :=
    fun _ => rfl
  rw [declsOf_entries, List.countP_append, hjunctions, Nat.zero_add, List.countP_flatMap]
  unfold Function.comp
  simp only [hsiding]
  rw [List.map_const', List.sum_replicate, length_sidings, smul_eq_mul, Nat.mul_comm]

/-! ## Well described -/

theorem declared_of_leads (h : Leads (declsOf (entries segments gap)) a b) :
    Declared (declsOf (entries segments gap)) a ∧ Declared (declsOf (entries segments gap)) b := by
  have hsrc : ∀ {a b}, Leads (declsOf (entries segments gap)) a b →
      Declared (declsOf (entries segments gap)) a := by
    intro a b h
    obtain ⟨d, hd, rfl, -⟩ := h
    exact List.mem_map_of_mem hd
  refine ⟨hsrc h, ?_⟩
  -- the way back leaves the reverse of the second node
  obtain ⟨w, hw, rfl, rfl⟩ := leads_iff.1 h
  have hback : Declared (declsOf (entries segments gap)) w.reversed.src.name :=
    hsrc (leads_iff.2 ⟨_, reversed_mem_ways hw, rfl, rfl⟩)
  obtain ⟨d, hd, hname⟩ := List.mem_map.1 hback
  obtain ⟨c, hc, hreverse⟩ := exists_spot hd
  obtain ⟨d', hd', ho⟩ := exists_opposed hd
  have hdest : w.dest.name = d'.name := by
    rw [hname] at hc
    rw [← ho.reverse_eq, hreverse, ← Spot.name_injective hc, Link.reversed, Spot.back_back]
  exact hdest ▸ List.mem_map_of_mem hd'

/-- The reverse of a spot is declared to be the reverse spot. -/
theorem eq_back_of_reverses {c : Spot}
    (h : Reverses (declsOf (entries segments gap)) c.name b) : b = c.back.name := by
  obtain ⟨d, hd, hname, rfl⟩ := h
  obtain ⟨c', hc', hreverse⟩ := exists_spot hd
  rw [hreverse, Spot.name_injective (hname.symm.trans hc')]

theorem reverses_of_declared {c : Spot} (h : Declared (declsOf (entries segments gap)) c.name) :
    Reverses (declsOf (entries segments gap)) c.name c.back.name := by
  obtain ⟨d, hd, hname⟩ := List.mem_map.1 h
  have hr : Reverses (declsOf (entries segments gap)) c.name d.reverse := ⟨d, hd, hname, rfl⟩
  exact eq_back_of_reverses hr ▸ hr

theorem leadsBack_entries : LeadsBack (declsOf (entries segments gap)) := by
  intro a b a' b' hab ha hb
  obtain ⟨w, hw, rfl, rfl⟩ := leads_iff.1 hab
  rw [eq_back_of_reverses ha, eq_back_of_reverses hb]
  exact leads_iff.2 ⟨_, reversed_mem_ways hw, rfl, rfl⟩

/-- The distance of a link covers the link and the way back. -/
theorem covers_entries (h : Leads (declsOf (entries segments gap)) a b) :
    ∃ x ∈ (entries segments gap).filterMap LineRecord.distance?,
      Covers (declsOf (entries segments gap)) x a b := by
  rw [distances_entries]
  obtain ⟨ha, hb⟩ := declared_of_leads h
  obtain ⟨w, hw, rfl, rfl⟩ := leads_iff.1 h
  rcases mem_ways_iff.1 hw with hl | hl
  · exact ⟨w.decl, List.mem_map_of_mem hl, Or.inl ⟨rfl, rfl⟩⟩
  · exact ⟨w.reversed.decl, List.mem_map_of_mem hl, Or.inr (Or.inl ⟨_, _,
      reverses_of_declared ha, reverses_of_declared hb, rfl, rfl⟩)⟩

theorem forks_entries : Forks (declsOf (entries segments gap)) := by
  intro d hd number straight curved hkind
  rcases mem_decls_iff.1 hd with ⟨x, -, hd⟩ | ⟨y, -, hd⟩
  · simp only [junctionDecls, List.mem_cons, List.not_mem_nil, or_false] at hd
    rcases hd with rfl | rfl <;> cases hkind
  · simp only [sidingDecls, List.mem_cons, List.not_mem_nil, or_false] at hd
    rcases hd with rfl | rfl | rfl | rfl | rfl | rfl | rfl | rfl <;> cases hkind <;> simp

/-- A round without repetitions is open. -/
theorem openRound_eq_self {names : List String} (h : names.Nodup) : openRound names = names := by
  unfold openRound
  rw [if_neg]
  rintro ⟨hlength, hends⟩
  match names, hlength with
  | a :: b :: rest, _ =>
    rw [List.head?_cons, List.getLast?_cons_cons, eq_comm] at hends
    exact (List.nodup_cons.1 h).1 (List.mem_of_getLast? hends)

theorem closedRound_roundNames (h : segments ≠ []) :
    ClosedRound (declsOf (entries segments gap)) (roundNames segments) := by
  constructor
  · rw [zip_rotate_roundNames, List.forall_mem_map]
    exact fun l hl => leads_iff.2 ⟨l, mem_ways_of_mem (round_subset hl), rfl, rfl⟩
  · obtain ⟨s, rest, rfl⟩ := List.exists_cons_of_ne_nil h
    have hx : (s, 0) ∈ (s :: rest).zipIdx := List.mem_cons_self
    obtain ⟨y, hy⟩ := exists_before hx
    obtain ⟨mid, hsrc, -⟩ := exists_lap (s :: rest).length s 0
    have hmem : (⟨.f, 0⟩ : Spot) ∈ (lapLinks (s :: rest).length s 0).map Link.src := by
      rw [hsrc]
      exact List.mem_cons_self
    obtain ⟨l, hl, hf⟩ := List.mem_map.1 hmem
    refine ⟨_, mem_decls_iff.2 (Or.inl ⟨_, hy, List.mem_cons_self⟩), rfl, ?_⟩
    exact List.mem_map.2 ⟨l, List.mem_flatMap.2 ⟨_, hx, hl⟩, by rw [hf]⟩

theorem openRound_steps :
    openRound (((entries segments gap).filterMap LineRecord.step?).map LoopStep.node) =
      roundNames segments := by
  have hnodes : (((entries segments gap).filterMap LineRecord.step?).map LoopStep.node) =
      roundNames segments := by
    rw [steps_entries, List.map_map]
    rfl
  rw [hnodes, openRound_eq_self nodup_roundNames]

/-- A ring that fits is well described. -/
theorem wellDescribed_entries (hne : segments ≠ [])
    (hfit : (segments.length + 2 * sidingCount segments - 1) * (2 + gap) + 2 +
      4 * sidingCount segments ≤ 65536) (required : Bool) :
    WellDescribed (entries segments gap) { requireDistances := required } := by
  have hm : (segments.length + 2 * sidingCount segments - 1) * (2 + gap) + 2 ≤ UInt32.size := by
    have : UInt32.size = 4294967296 := rfl
    omega
  exact {
    distinct := ⟨nodup_names, by rw [addresses_entries]; exact nodup_addressPairs hm⟩
    address_le := by
      intro d _ c _ limit hlimit
      cases hlimit
    size_le := by
      have hspan := addressSpan_le hm
      rw [countP_not_sensor]
      show _ ≤ 65536
      omega
    successors_declared := by
      intro d hd b hb
      exact (declared_of_leads ⟨d, hd, rfl, hb⟩).2
    distances_declared := by
      rw [distances_entries, List.forall_mem_map]
      exact fun l hl => declared_of_leads (leads_of_mem hl).1
    distances_lead := by
      rw [distances_entries, List.forall_mem_map]
      exact fun l hl => (leads_of_mem hl).1
    reversible := leadsBack_entries
    covered := fun _ => ⟨forks_entries, fun _ _ => covers_entries⟩
    mutexes_lead := by
      rw [mutexes_entries, List.forall_mem_map]
      intro x hx p hp
      obtain ⟨hx, hs⟩ := List.mem_filter.1 hx
      rw [List.mem_singleton.1 hp]
      have hl : ⟨⟨.ba, x.2⟩, ⟨.p, x.2⟩, quarter x.1⟩ ∈ ringLinks segments :=
        mem_ringLinks_iff.2 ⟨x, hx, by rw [links_of_siding hs]; simp⟩
      exact (leads_of_mem hl).1
    loop := Or.inr (by rw [openRound_steps]; exact closedRound_roundNames hne) }

end TrackPlan.Example.Ring
