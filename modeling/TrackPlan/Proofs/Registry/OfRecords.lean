import TrackPlan.Proofs.Registry.Layout

/-!
# The registry of a list of records

Records make a registry if they give no name and no address twice (`exists_ofRecords_iff`). The
registry then holds what the records declare, and gives every declaration a place
(`holds_ofRecords`).
-/

namespace TrackPlan.Registry

variable {r r' : Registry} {d d' : Decl} {records done : List LineRecord} {entry : LineRecord}

/-! ## When records are taken -/

/-- Every sensor has its address. -/
def Addressed (r : Registry) : Prop :=
  ∀ i d a, r.decls[i]? = some d → d.kind.address? = some a → (a, i) ∈ r.sensors

theorem Addressed.grow (h : r.Addressed) (d : Decl) : (r.grow d).Addressed := by
  intro i e a he ha
  rw [mem_sensors_grow]
  rw [decls_grow] at he
  rcases getElem?_concat_eq_some_iff.1 he with he | ⟨rfl, rfl⟩
  · exact Or.inl (h i e a he ha)
  · exact Or.inr ⟨ha, rfl⟩

/-- The addresses taken are those of the declared sensors. -/
theorem Valid.mem_addresses_iff (hv : r.Valid) (ha : r.Addressed) {a : UInt32} :
    a ∈ r.sensors.map Prod.fst ↔ a ∈ r.decls.filterMap (·.kind.address?) := by
  rw [List.mem_map, List.mem_filterMap]
  constructor
  · rintro ⟨s, hs, rfl⟩
    obtain ⟨d, hd, had⟩ := hv.sensor_decl s hs
    exact ⟨d, List.mem_of_getElem? hd, had⟩
  · rintro ⟨d, hd, had⟩
    obtain ⟨i, hi⟩ := List.getElem?_of_mem hd
    exact ⟨(a, i), ha i d a hi had, rfl⟩

theorem Valid.distinct (hv : r.Valid) (ha : r.Addressed) : Distinct r.decls := by
  refine ⟨hv.names_nodup, ?_⟩
  unfold List.Nodup
  rw [List.pairwise_filterMap, List.pairwise_iff_getElem]
  rintro i j hi hj hij a hai _ haj rfl
  have := hv.sensors_functional (ha i _ a (List.getElem?_eq_getElem hi) hai)
    (ha j _ a (List.getElem?_eq_getElem hj) haj)
  omega

/-- A node is admitted if it repeats neither a name nor an address. -/
theorem Valid.admits_iff (hv : r.Valid) (ha : r.Addressed) :
    r.Admits d ↔ Distinct (r.decls ++ [d]) := by
  constructor
  · intro h
    exact (hv.grow h).distinct (ha.grow d)
  · rintro ⟨hn, hadd⟩
    rw [List.map_append, List.nodup_append] at hn
    rw [List.filterMap_append, List.nodup_append] at hadd
    refine ⟨fun h => hn.2.2 _ h _ (by simp) rfl, fun a had h => ?_⟩
    rw [hv.mem_addresses_iff ha] at h
    exact hadd.2.2 a h a (by simp [had]) rfl

/-- Records are added to the last if names and addresses stay distinct. -/
theorem Valid.exists_addAll_iff (hv : r.Valid) (ha : r.Addressed) :
    (∃ r', r.addAll records = .ok r') ↔ Distinct (r.decls ++ declsOf records) := by
  induction records generalizing r with
  | nil =>
    rw [declsOf_nil, List.append_nil]
    exact iff_of_true ⟨r, rfl⟩ (hv.distinct ha)
  | cons entry rest ih =>
    rw [declsOf_cons]
    unfold addAll LineRecord.halves
    cases h : entry.halves? with
    | none =>
      rw [add_note h]
      exact ih (hv.note entry) ha
    | some halves =>
      obtain ⟨d, d'⟩ := halves
      dsimp only
      rw [← List.append_assoc, List.append_cons r.decls d [d']]
      rcases add_cases (r := r) h with ⟨hd, e, he⟩ | ⟨hd, hd', e, he⟩ | ⟨hd, hd', he⟩
      · rw [he]
        rw [hv.admits_iff ha] at hd
        refine iff_of_false (by simp) fun hdist => hd (hdist.sublist ?_)
        rw [List.append_assoc]
        exact List.sublist_append_left _ _
      · rw [he]
        rw [(hv.grow hd).admits_iff (ha.grow d)] at hd'
        refine iff_of_false (by simp) fun hdist => hd' (hdist.sublist ?_)
        exact List.sublist_append_left _ _
      · rw [he]
        have hpair := hv.pair hd hd' (LineRecord.opposed_of_halves? h)
        have haddr : (((r.grow d).grow d').listPair d.kind.tag r.decls.length).Addressed := by
          unfold Addressed
          rw [decls_listPair, sensors_listPair]
          exact (ha.grow d).grow d'
        rw [ih hpair haddr, decls_listPair]
        rfl

/-- Records make a registry if they give no name and no address twice. -/
theorem exists_ofRecords_iff : (∃ r, ofRecords records = .ok r) ↔ Distinct (declsOf records) :=
  Valid.empty.exists_addAll_iff fun _ _ _ h => by cases h

/-! ## What the registry holds then -/

/-- The registry holds what the records declare, and gives every declaration a place. -/
structure Holds (r : Registry) (records : List LineRecord) : Prop where
  decls_eq : r.decls = declsOf records
  distances_eq : r.distances = records.filterMap LineRecord.distance?
  mutexes_eq : r.mutexes = records.filterMap LineRecord.mutex?
  loop_eq : r.loop = records.filterMap LineRecord.step?
  complete : ∀ i < r.decls.length, (∃ a, (a, i) ∈ r.sensors) ∨ i ∈ r.listed

theorem Holds.empty : empty.Holds [] :=
  ⟨rfl, rfl, rfl, rfl, fun i hi => absurd hi (Nat.not_lt_zero i)⟩

theorem Holds.note (h : r.Holds done) (hn : entry.halves? = none) :
    (r.note entry).Holds (done ++ [entry]) where
  decls_eq := by
    rw [declsOf_append, declsOf_cons, LineRecord.halves, hn, declsOf_nil, List.append_nil,
      List.append_nil]
    exact h.decls_eq
  distances_eq := by
    rw [List.filterMap_append, ← h.distances_eq]
    cases hd : entry.distance? <;> simp [Registry.note, hd]
  mutexes_eq := by
    rw [List.filterMap_append, ← h.mutexes_eq]
    cases hm : entry.mutex? <;> simp [Registry.note, hm]
  loop_eq := by
    rw [List.filterMap_append, ← h.loop_eq]
    cases hs : entry.step? <;> simp [Registry.note, hs]
  complete := h.complete

theorem mem_listed_listPair {i n : Nat} {tag : Tag} (hi : i ∈ r.listed) :
    i ∈ (r.listPair tag n).listed := by
  unfold listed at *
  cases tag <;> simp only [Registry.listPair, List.mem_append] at * <;> tauto

/-- Both halves of a taken record have a place: an address, or a listed position. -/
theorem place_of_pair (hh : entry.halves? = some (d, d')) :
    ∀ i ∈ [r.decls.length, r.decls.length + 1],
      (∃ a, (a, i) ∈ ((r.grow d).grow d').sensors) ∨
        i ∈ (((r.grow d).grow d').listPair d.kind.tag r.decls.length).listed := by
  by_cases ht : d.kind.tag = .sensor
  · have ht' : d'.kind.tag = .sensor := by
      rw [(LineRecord.opposed_of_halves? hh).tag_eq, ht]
      rfl
    obtain ⟨a, had⟩ := Option.isSome_iff_exists.1 ((Kind.address?_isSome_iff _).2 ht)
    obtain ⟨a', had'⟩ := Option.isSome_iff_exists.1 ((Kind.address?_isSome_iff _).2 ht')
    simp only [List.mem_cons, List.not_mem_nil, or_false, forall_eq_or_imp, forall_eq]
    refine ⟨Or.inl ⟨a, ?_⟩, Or.inl ⟨a', ?_⟩⟩
    · exact mem_sensors_grow.2 (Or.inl (mem_sensors_grow.2 (Or.inr ⟨had, rfl⟩)))
    · exact mem_sensors_grow.2 (Or.inr ⟨had', by simp⟩)
  · intro i hi
    apply Or.inr
    have hmem := LineRecord.tag_of_halves? hh
    unfold listed
    simp only [List.mem_cons, List.not_mem_nil, or_false] at hmem
    rcases hmem with h | h | h | h
    · exact absurd h ht
    all_goals
      rw [h]
      simp only [Registry.listPair, List.mem_append]
      tauto

theorem Holds.pair (h : r.Holds done) (hh : entry.halves? = some (d, d')) :
    (((r.grow d).grow d').listPair d.kind.tag r.decls.length).Holds (done ++ [entry]) := by
  obtain ⟨hd, hm, hs⟩ := LineRecord.pending_of_halves? hh
  have hkeep : ∀ tag n, (((r.grow d).grow d').listPair tag n).distances = r.distances ∧
      (((r.grow d).grow d').listPair tag n).mutexes = r.mutexes ∧
        (((r.grow d).grow d').listPair tag n).loop = r.loop := by
    intro tag n
    cases tag <;> exact ⟨rfl, rfl, rfl⟩
  obtain ⟨hkd, hkm, hks⟩ := hkeep d.kind.tag r.decls.length
  refine ⟨?_, ?_, ?_, ?_, fun i hi => ?_⟩
  · rw [decls_listPair, decls_grow, decls_grow, h.decls_eq, declsOf_append, declsOf_cons,
      LineRecord.halves, hh]
    simp
  · rw [hkd, h.distances_eq, List.filterMap_append]
    simp [hd]
  · rw [hkm, h.mutexes_eq, List.filterMap_append]
    simp [hm]
  · rw [hks, h.loop_eq, List.filterMap_append]
    simp [hs]
  · rw [decls_listPair, decls_grow, decls_grow, List.length_append, List.length_append] at hi
    rw [sensors_listPair]
    rcases Nat.lt_or_ge i r.decls.length with hlt | hge
    · rcases h.complete i hlt with ⟨a, ha⟩ | hl
      · exact Or.inl ⟨a, mem_sensors_grow.2 (Or.inl (mem_sensors_grow.2 (Or.inl ha)))⟩
      · exact Or.inr (mem_listed_listPair (r := (r.grow d).grow d') hl)
    · apply place_of_pair hh i
      simp only [List.length_singleton] at hi
      simp only [List.mem_cons, List.not_mem_nil, or_false]
      omega

/-- The step: a record that is taken is held. -/
theorem Holds.add (h : r.Holds done) (hadd : r.add entry = (r', .ok ())) :
    r'.Holds (done ++ [entry]) := by
  cases hh : entry.halves? with
  | none =>
    rw [add_note hh] at hadd
    cases hadd
    exact h.note hh
  | some halves =>
    obtain ⟨d, d'⟩ := halves
    rcases add_cases (r := r) hh with ⟨-, e, he⟩ | ⟨-, -, e, he⟩ | ⟨-, -, he⟩ <;>
      rw [he] at hadd <;> cases hadd
    exact h.pair hh

/-- The run: the records that are added are held. -/
theorem Holds.addAll (h : r.Holds done) (hadd : r.addAll records = .ok r') :
    r'.Holds (done ++ records) := by
  induction records generalizing r done with
  | nil =>
    cases hadd
    rwa [List.append_nil]
  | cons entry rest ih =>
    unfold Registry.addAll at hadd
    split at hadd
    · next r₁ he =>
      rw [List.append_cons]
      exact ih (h.add he) hadd
    · cases hadd

theorem holds_ofRecords (h : ofRecords records = .ok r) : r.Holds records :=
  Holds.empty.addAll h

/-- Every declaration of a list of records has its place. -/
theorem Holds.exists_placed (h : r.Holds records) (hv : r.Valid) (hd : d ∈ r.decls) :
    ∃ p : Nat, r.placed[p]? = some (some d) := by
  obtain ⟨i, hi⟩ := List.getElem?_of_mem hd
  obtain ⟨p, hp⟩ := hv.exists_layout_iff.2 (h.complete i (List.getElem?_eq_some_iff.1 hi).1)
  exact ⟨p, placed_eq_some_iff.2 ⟨i, hp, hi⟩⟩

end TrackPlan.Registry
