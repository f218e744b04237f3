import Mathlib.Data.List.Nodup
import Mathlib.Data.List.Perm.Basic
import TrackPlan.Proofs.Lists
import TrackPlan.Proofs.Registry.Reachable

/-!
# The layout of a registry

The layout of a valid registry gives no declaration two positions: a sensor stands at its address,
and every listed node stands once behind the places of the sensors (`layout_eq_some_iff`,
`layout_inj`). So the names of the placed nodes find their positions (`lookup_places`).
-/

namespace TrackPlan

/-- A declaration is known by its name. -/
theorem getElem?_inj_of_name {decls : List Decl} (h : (decls.map Decl.name).Nodup) {i j : Nat}
    {d e : Decl} (hi : decls[i]? = some d) (hj : decls[j]? = some e) (hn : d.name = e.name) :
    i = j := by
  have hlt : i < (decls.map Decl.name).length := by
    rw [List.length_map]
    exact (List.getElem?_eq_some_iff.1 hi).1
  refine (List.getElem?_inj hlt h).1 ?_
  rw [List.getElem?_map, List.getElem?_map, hi, hj, Option.map_some, Option.map_some, hn]

namespace Registry

variable {r : Registry} {p q i : Nat} {d : Decl} {s : String}

/-- A name finds the one declaration that has it. -/
theorem Valid.decl?_eq_some_iff (hv : r.Valid) : r.decl? s = some d ↔ d ∈ r.decls ∧ d.name = s := by
  rw [decl?_eq_find?]
  constructor
  · intro h
    exact ⟨List.mem_of_find?_eq_some h, by simpa using List.find?_some h⟩
  · rintro ⟨hd, rfl⟩
    obtain ⟨e, he⟩ : ∃ e, r.decls.find? (·.name == d.name) = some e :=
      Option.isSome_iff_exists.1 (List.find?_isSome.2 ⟨d, hd, beq_self_eq_true d.name⟩)
    have hname : e.name = d.name := by simpa using List.find?_some he
    obtain rfl := List.inj_on_of_nodup_map hv.names_nodup (List.mem_of_find?_eq_some he) hd hname
    exact he

/-- The listed nodes, in the order of the layout. -/
def listed (r : Registry) : List Nat := r.switches ++ r.terminals ++ r.separators

/-! ## Sensors -/

theorem Valid.addresses_nodup (hv : r.Valid) : (r.sensors.map Prod.fst).Nodup :=
  List.pairwise_map.2 (hv.addresses_ascending.imp UInt32.ne_of_lt)

theorem Valid.sensors_functional (hv : r.Valid) {a : UInt32} {i j : Nat} (hi : (a, i) ∈ r.sensors)
    (hj : (a, j) ∈ r.sensors) : i = j :=
  congrArg Prod.snd (List.inj_on_of_nodup_map hv.addresses_nodup hi hj rfl)

theorem Valid.lookup_sensors (hv : r.Valid) {a : UInt32} :
    r.sensors.lookup a = some i ↔ (a, i) ∈ r.sensors :=
  lookup_eq_some_iff_mem fun _ _ _ => hv.sensors_functional

theorem Valid.address_unique (hv : r.Valid) {a b : UInt32} (ha : (a, i) ∈ r.sensors)
    (hb : (b, i) ∈ r.sensors) : a = b := by
  obtain ⟨d, hd, had⟩ := hv.sensor_decl _ ha
  obtain ⟨e, he, hbe⟩ := hv.sensor_decl _ hb
  rw [hd] at he
  cases he
  exact Option.some.inj (had.symm.trans hbe)

theorem sensorSlots_le (r : Registry) : r.sensorSlots ≤ UInt32.size := by
  unfold sensorSlots
  split
  · next a i _ => exact a.toNat_lt
  · exact Nat.zero_le _

theorem Valid.toNat_lt_sensorSlots (hv : r.Valid) {a : UInt32} (ha : (a, i) ∈ r.sensors) :
    a.toNat < r.sensorSlots := by
  unfold sensorSlots
  split
  · next b j hl =>
    obtain ⟨l, hl⟩ := List.getLast?_eq_some_iff.1 hl
    have hasc := hv.addresses_ascending
    rw [hl] at ha hasc
    rcases List.mem_append.1 ha with ha | ha
    · have := (List.pairwise_append.1 hasc).2.2 _ ha _ (List.mem_singleton_self _)
      exact Nat.lt_succ_of_lt (UInt32.lt_iff_toNat_lt.1 this)
    · cases List.mem_singleton.1 ha
      exact Nat.lt_succ_self _
  · next hl =>
    rw [List.getLast?_eq_none_iff] at hl
    simp [hl] at ha

/-! ## Positions -/

theorem getElem?_layout_of_lt (h : p < r.sensorSlots) :
    r.layout[p]? = some (r.sensors.lookup (UInt32.ofNat p)) := by
  unfold layout
  rw [List.getElem?_append_left (by simpa using h), List.getElem?_map,
    List.getElem?_range h, Option.map_some]

theorem getElem?_layout_add (k : Nat) :
    r.layout[r.sensorSlots + k]? = r.listed[k]?.map some := by
  unfold layout listed
  rw [List.getElem?_append_right (by simp), List.getElem?_map]
  simp

/-- A sensor stands at its address; what is listed follows the places of the sensors. -/
theorem Valid.layout_eq_some_iff (hv : r.Valid) : r.layout[p]? = some (some i) ↔
    (∃ a, (a, i) ∈ r.sensors ∧ a.toNat = p) ∨
      ∃ k, p = r.sensorSlots + k ∧ r.listed[k]? = some i := by
  by_cases hp : p < r.sensorSlots
  · have hsize : p < UInt32.size := Nat.lt_of_lt_of_le hp r.sensorSlots_le
    have hof : (UInt32.ofNat p).toNat = p := UInt32.toNat_ofNat_of_lt' hsize
    rw [getElem?_layout_of_lt hp, Option.some.injEq, hv.lookup_sensors]
    constructor
    · intro h
      exact Or.inl ⟨_, h, hof⟩
    · rintro (⟨a, ha, rfl⟩ | ⟨k, rfl, -⟩)
      · rwa [UInt32.ofNat_toNat]
      · omega
  · obtain ⟨k, rfl⟩ := Nat.exists_eq_add_of_le (Nat.le_of_not_lt hp)
    rw [getElem?_layout_add]
    constructor
    · intro h
      exact Or.inr ⟨k, rfl, by simpa using h⟩
    · rintro (⟨a, ha, hak⟩ | ⟨k', hk, h⟩)
      · have := hv.toNat_lt_sensorSlots ha
        omega
      · obtain rfl : k = k' := by omega
        simp [h]

/-- A listed declaration is no sensor, and what it is tells its class. -/
theorem Valid.tag_of_mem_listed (hv : r.Valid) (hi : i ∈ r.listed) :
    ∃ d, r.decls[i]? = some d ∧
      d.kind.tag ∈ [Tag.branch, .merge, .enter, .exit, .separator] := by
  unfold listed at hi
  rw [List.mem_append, List.mem_append] at hi
  rcases hi with (hi | hi) | hi
  · obtain ⟨d, hd, ht | ht⟩ := hv.switches.tag_of_mem hi <;>
      exact ⟨d, hd, by simp [ht, Tag.opposite]⟩
  · obtain ⟨d, hd, ht | ht⟩ := hv.terminals.tag_of_mem hi <;>
      exact ⟨d, hd, by simp [ht, Tag.opposite]⟩
  · obtain ⟨d, hd, ht | ht⟩ := hv.separators.tag_of_mem hi <;>
      exact ⟨d, hd, by simp [ht, Tag.opposite]⟩

theorem Valid.listed_nodup (hv : r.Valid) : r.listed.Nodup := by
  have hclass : ∀ {i j : Nat} {tag tag' : Tag} {l l' : List Nat}, Pairs r.decls tag l →
      Pairs r.decls tag' l' → tag ≠ tag' → tag ≠ tag'.opposite → i ∈ l → j ∈ l' → i ≠ j := by
    rintro i _ tag tag' l l' hl hl' hne hne' hi hj rfl
    obtain ⟨d, hd, ht⟩ := hl.tag_of_mem hi
    obtain ⟨e, he, ht'⟩ := hl'.tag_of_mem hj
    rw [hd] at he
    cases he
    rcases ht with ht | ht <;> rcases ht' with ht' | ht' <;> rw [ht] at ht'
    · exact hne ht'
    · exact hne' ht'
    · exact hne' (by rw [← ht', Tag.opposite_opposite])
    · exact hne (by simpa using congrArg Tag.opposite ht')
  unfold listed
  rw [List.nodup_append, List.nodup_append]
  refine ⟨⟨hv.switches.nodup, hv.terminals.nodup, fun i hi j hj => ?_⟩, hv.separators.nodup,
    fun i hi j hj => ?_⟩
  · exact hclass hv.switches hv.terminals (by decide) (by decide) hi hj
  · rcases List.mem_append.1 hi with hi | hi
    · exact hclass hv.switches hv.separators (by decide) (by decide) hi hj
    · exact hclass hv.terminals hv.separators (by decide) (by decide) hi hj

/-- What has an address is not listed. -/
theorem Valid.not_mem_listed (hv : r.Valid) {a : UInt32} (ha : (a, i) ∈ r.sensors) :
    i ∉ r.listed := by
  intro hi
  obtain ⟨d, hd, had⟩ := hv.sensor_decl _ ha
  obtain ⟨e, he, ht⟩ := hv.tag_of_mem_listed hi
  rw [hd] at he
  cases he
  obtain ⟨name, reverse, kind, line⟩ := d
  cases kind <;> simp [Kind.address?, Kind.tag] at had ht

/-- No declaration has two positions. -/
theorem Valid.layout_inj (hv : r.Valid) (hp : r.layout[p]? = some (some i))
    (hq : r.layout[q]? = some (some i)) : p = q := by
  rcases hv.layout_eq_some_iff.1 hp with ⟨a, ha, rfl⟩ | ⟨k, rfl, hk⟩ <;>
    rcases hv.layout_eq_some_iff.1 hq with ⟨b, hb, rfl⟩ | ⟨m, rfl, hm⟩
  · rw [hv.address_unique ha hb]
  · exact absurd (List.mem_of_getElem? hm) (hv.not_mem_listed ha)
  · exact absurd (List.mem_of_getElem? hk) (hv.not_mem_listed hb)
  · rw [(List.getElem?_inj (List.getElem?_eq_some_iff.1 hk).1 hv.listed_nodup).1 (hk.trans hm.symm)]

/-- The declarations that have a position: those with an address, and the listed ones. -/
theorem Valid.exists_layout_iff (hv : r.Valid) :
    (∃ p : Nat, r.layout[p]? = some (some i)) ↔ (∃ a, (a, i) ∈ r.sensors) ∨ i ∈ r.listed := by
  constructor
  · rintro ⟨p, hp⟩
    rcases hv.layout_eq_some_iff.1 hp with ⟨a, ha, -⟩ | ⟨k, -, hk⟩
    · exact Or.inl ⟨a, ha⟩
    · exact Or.inr (List.mem_of_getElem? hk)
  · rintro (⟨a, ha⟩ | hi)
    · exact ⟨a.toNat, hv.layout_eq_some_iff.2 (Or.inl ⟨a, ha, rfl⟩)⟩
    · obtain ⟨k, hk⟩ := List.getElem?_of_mem hi
      exact ⟨r.sensorSlots + k, hv.layout_eq_some_iff.2 (Or.inr ⟨k, rfl, hk⟩)⟩

theorem Valid.exists_decl (hv : r.Valid) (hp : r.layout[p]? = some (some i)) :
    ∃ d, r.decls[i]? = some d := by
  rcases hv.layout_eq_some_iff.1 hp with ⟨a, ha, -⟩ | ⟨k, -, hk⟩
  · obtain ⟨d, hd, -⟩ := hv.sensor_decl _ ha
    exact ⟨d, hd⟩
  · obtain ⟨d, hd, -⟩ := hv.tag_of_mem_listed (List.mem_of_getElem? hk)
    exact ⟨d, hd⟩

/-! ## Placed declarations -/

@[simp] theorem length_placed (r : Registry) : r.placed.length = r.slotCount := by
  unfold placed
  rw [List.length_map, length_layout]

theorem placed_eq_some_iff :
    r.placed[p]? = some (some d) ↔ ∃ i, r.layout[p]? = some (some i) ∧ r.decls[i]? = some d := by
  unfold placed
  rw [List.getElem?_map]
  cases r.layout[p]? with
  | none => simp
  | some index? => cases index? <;> simp

theorem Valid.placed_eq_none (hv : r.Valid) (hp : r.placed[p]? = some none) :
    r.layout[p]? = some none ∧ p < r.sensorSlots := by
  have hl : r.layout[p]? = some none := by
    unfold placed at hp
    rw [List.getElem?_map] at hp
    cases h : r.layout[p]? with
    | none => simp [h] at hp
    | some index? =>
      cases index? with
      | none => rfl
      | some i =>
        obtain ⟨d, hd⟩ := hv.exists_decl h
        simp [h, hd] at hp
  refine ⟨hl, Nat.lt_of_not_le fun hle => ?_⟩
  obtain ⟨k, rfl⟩ := Nat.exists_eq_add_of_le hle
  rw [getElem?_layout_add] at hl
  simp at hl

theorem mem_decls_of_placed (hp : r.placed[p]? = some (some d)) : d ∈ r.decls := by
  obtain ⟨i, -, hi⟩ := placed_eq_some_iff.1 hp
  exact List.mem_of_getElem? hi

/-- A position among those of the sensors holds the sensor of that address. -/
theorem Valid.address_of_placed (hv : r.Valid) (hp : r.placed[p]? = some (some d))
    (hlt : p < r.sensorSlots) : ∃ a, d.kind.address? = some a ∧ a.toNat = p := by
  obtain ⟨i, hl, hd⟩ := placed_eq_some_iff.1 hp
  rcases hv.layout_eq_some_iff.1 hl with ⟨a, ha, hap⟩ | ⟨k, rfl, -⟩
  · obtain ⟨e, he, hea⟩ := hv.sensor_decl _ ha
    rw [hd] at he
    cases he
    exact ⟨a, hea, hap⟩
  · omega

/-- A later position holds a listed node. -/
theorem Valid.tag_of_placed (hv : r.Valid) (hp : r.placed[p]? = some (some d))
    (hle : r.sensorSlots ≤ p) :
    d.kind.tag ∈ [Tag.branch, .merge, .enter, .exit, .separator] := by
  obtain ⟨i, hl, hd⟩ := placed_eq_some_iff.1 hp
  rcases hv.layout_eq_some_iff.1 hl with ⟨a, ha, rfl⟩ | ⟨k, -, hk⟩
  · have := hv.toNat_lt_sensorSlots ha
    omega
  · obtain ⟨e, he, ht⟩ := hv.tag_of_mem_listed (List.mem_of_getElem? hk)
    rw [hd] at he
    cases he
    exact ht

/-- Placed nodes of one name stand at one position. -/
theorem Valid.placed_inj (hv : r.Valid) {e : Decl} (hp : r.placed[p]? = some (some d))
    (hq : r.placed[q]? = some (some e)) (hn : d.name = e.name) : p = q := by
  obtain ⟨i, hi, hd⟩ := placed_eq_some_iff.1 hp
  obtain ⟨j, hj, he⟩ := placed_eq_some_iff.1 hq
  obtain rfl := getElem?_inj_of_name hv.names_nodup hd he hn
  exact hv.layout_inj hi hj

theorem mem_places : (s, p) ∈ r.places ↔ ∃ d, r.placed[p]? = some (some d) ∧ d.name = s := by
  unfold places
  rw [List.mem_filterMap]
  constructor
  · intro h
    obtain ⟨⟨d?, q⟩, hmem, hd⟩ := h
    rw [List.mem_zipIdx_iff_getElem?] at hmem
    obtain ⟨d, rfl, heq⟩ := Option.map_eq_some_iff.1 hd
    cases heq
    exact ⟨d, hmem, rfl⟩
  · rintro ⟨d, hd, rfl⟩
    exact ⟨(some d, p), List.mem_zipIdx_iff_getElem?.2 hd, rfl⟩

/-- A name finds the position of the placed node that has it. -/
theorem Valid.lookup_places (hv : r.Valid) :
    r.places.lookup s = some p ↔ ∃ d, r.placed[p]? = some (some d) ∧ d.name = s := by
  rw [← mem_places]
  apply lookup_eq_some_iff_mem
  intro s p q hp hq
  obtain ⟨d, hd, rfl⟩ := mem_places.1 hp
  obtain ⟨e, he, hn⟩ := mem_places.1 hq
  exact hv.placed_inj hd he hn.symm

/-- Whether a place holds a sensor. -/
def holdsSensor (d? : Option Decl) : Bool := d?.any (·.kind.tag == .sensor)

theorem Valid.holdsSensor_lookup (hv : r.Valid) (a : UInt32) :
    holdsSensor ((r.sensors.lookup a).bind (r.decls[·]?)) = true ↔ a ∈ r.sensors.map Prod.fst := by
  cases hl : r.sensors.lookup a with
  | none =>
    refine iff_of_false (by simp [holdsSensor]) fun hmem => ?_
    obtain ⟨s, hs, rfl⟩ := List.mem_map.1 hmem
    simpa using List.lookup_eq_none_iff.1 hl s hs
  | some i =>
    have hi := hv.lookup_sensors.1 hl
    obtain ⟨d, hd, had⟩ := hv.sensor_decl _ hi
    refine iff_of_true ?_ (List.mem_map.2 ⟨_, hi, rfl⟩)
    rw [Option.bind_some, hd]
    obtain ⟨name, reverse, kind, line⟩ := d
    cases kind <;> simp [Kind.address?] at had
    rfl

/-- As many sensors are placed as there are addresses. -/
theorem Valid.countP_placed (hv : r.Valid) : r.placed.countP holdsSensor = r.sensors.length := by
  have hlisted :
      (r.listed.map some).countP (fun i? => holdsSensor (i?.bind (r.decls[·]?))) = 0 := by
    rw [List.countP_eq_zero]
    intro i? hi?
    obtain ⟨i, hi, rfl⟩ := List.mem_map.1 hi?
    obtain ⟨d, hd, ht⟩ := hv.tag_of_mem_listed hi
    rw [Option.bind_some, hd]
    obtain ⟨name, reverse, kind, line⟩ := d
    cases kind <;> simp [Kind.tag] at ht <;> simp [holdsSensor, Kind.tag]
  have hperm : ((List.range r.sensorSlots).filter fun p =>
      holdsSensor ((r.sensors.lookup (UInt32.ofNat p)).bind (r.decls[·]?))).Perm
        (r.sensors.map fun s => s.1.toNat) := by
    refine (List.perm_ext_iff_of_nodup (List.nodup_range.filter _) ?_).2 fun p => ?_
    · have := hv.addresses_nodup.map (f := UInt32.toNat) fun a b => UInt32.toNat.inj
      rwa [List.map_map] at this
    · rw [List.mem_filter, List.mem_range, hv.holdsSensor_lookup, List.mem_map, List.mem_map]
      constructor
      · intro h
        obtain ⟨hp, s, hs, hsp⟩ := h
        refine ⟨s, hs, ?_⟩
        rw [hsp, UInt32.toNat_ofNat_of_lt' (Nat.lt_of_lt_of_le hp r.sensorSlots_le)]
      · rintro ⟨s, hs, rfl⟩
        exact ⟨hv.toNat_lt_sensorSlots hs, s, hs, by rw [UInt32.ofNat_toNat]⟩
  unfold placed layout
  rw [List.countP_map, List.countP_append, List.countP_map, ← List.length_map (fun s => s.1.toNat),
    ← hperm.length_eq, ← List.countP_eq_length_filter]
  exact Nat.add_eq_left.2 hlisted

end Registry

end TrackPlan
