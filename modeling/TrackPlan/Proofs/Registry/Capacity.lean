import TrackPlan.Graph.Link
import TrackPlan.Proofs.Registry.OfRecords

/-!
# The limits of a registry

The limits are checked on the registry, before any place is made. `checkCapacity_eq_ok_iff` says
what they come to for the declarations: addresses up to the limit, and places for all addresses up
to the highest and for every node that is no sensor.
-/

namespace TrackPlan.Registry

variable {r : Registry} {records : List LineRecord} {o : Options} {i : Nat}

theorem Valid.tag_of_mem_sensors (hv : r.Valid) {a : UInt32} (ha : (a, i) ∈ r.sensors) :
    ∃ d, r.decls[i]? = some d ∧ d.kind.address? = some a ∧ d.kind.tag = .sensor := by
  obtain ⟨d, hd, had⟩ := hv.sensor_decl _ ha
  exact ⟨d, hd, had, (Kind.address?_isSome_iff _).1 (by rw [had]; rfl)⟩

/-- Where every declaration has a place, the listed ones are those that are no sensors. -/
theorem Holds.mem_listed_iff (hh : r.Holds records) (hv : r.Valid) :
    i ∈ r.listed ↔ ∃ d, r.decls[i]? = some d ∧ d.kind.tag ≠ .sensor := by
  constructor
  · intro hi
    obtain ⟨d, hd, ht⟩ := hv.tag_of_mem_listed hi
    exact ⟨d, hd, fun hs => by simp [hs] at ht⟩
  · rintro ⟨d, hd, ht⟩
    rcases hh.complete i (List.getElem?_eq_some_iff.1 hd).1 with ⟨a, ha⟩ | hl
    · obtain ⟨e, he, -, hs⟩ := hv.tag_of_mem_sensors ha
      rw [hd] at he
      cases he
      exact absurd hs ht
    · exact hl

/-- Where every declaration has a place, every sensor has its address. -/
theorem Holds.addressed (hh : r.Holds records) (hv : r.Valid) : r.Addressed := by
  intro i d a hd had
  rcases hh.complete i (List.getElem?_eq_some_iff.1 hd).1 with ⟨b, hb⟩ | hl
  · obtain ⟨e, he, heb, -⟩ := hv.tag_of_mem_sensors hb
    rw [hd] at he
    cases he
    rw [had] at heb
    cases heb
    exact hb
  · obtain ⟨e, he, ht⟩ := (hh.mem_listed_iff hv).1 hl
    rw [hd] at he
    cases he
    exact absurd ((Kind.address?_isSome_iff _).1 (by rw [had]; rfl)) ht

theorem Holds.length_listed (hh : r.Holds records) (hv : r.Valid) :
    r.listed.length = r.decls.countP (·.kind.tag ≠ .sensor) := by
  have hperm : r.listed.Perm
      ((r.decls.zipIdx.filter fun p => decide (p.1.kind.tag ≠ .sensor)).map Prod.snd) := by
    refine (List.perm_ext_iff_of_nodup hv.listed_nodup ?_).2 fun i => ?_
    · apply List.Nodup.sublist (List.filter_sublist.map _)
      rw [List.zipIdx_map_snd]
      exact List.nodup_range'
    · rw [hh.mem_listed_iff hv, List.mem_map]
      simp only [List.mem_filter, decide_eq_true_eq, Prod.exists, exists_eq_right,
        List.mem_zipIdx_iff_getElem?]
  have hcount : r.decls.countP (·.kind.tag ≠ .sensor) =
      r.decls.zipIdx.countP fun p => decide (p.1.kind.tag ≠ .sensor) := by
    conv_lhs => rw [← List.zipIdx_map_fst 0 r.decls, List.countP_map]
    rfl
  rw [hperm.length_eq, List.length_map, hcount, List.countP_eq_length_filter]

theorem addressSpan_le_iff {decls : List Decl} {n : Nat} : addressSpan decls ≤ n ↔
    ∀ a ∈ decls.filterMap (·.kind.address?), a.toNat < n := by
  unfold addressSpan
  induction decls.filterMap (·.kind.address?) with
  | nil => simp
  | cons a rest ih =>
    rw [List.forall_mem_cons, ← ih]
    exact Nat.max_le

theorem Valid.sensorSlots_le_iff (hv : r.Valid) {n : Nat} :
    r.sensorSlots ≤ n ↔ ∀ s ∈ r.sensors, s.1.toNat < n := by
  constructor
  · intro h s hs
    exact Nat.lt_of_lt_of_le (hv.toNat_lt_sensorSlots hs) h
  · intro h
    unfold sensorSlots
    split
    · next a i hl => exact h (a, i) (List.mem_of_getLast? hl)
    · exact Nat.zero_le n

/-- The places for sensors reach up to the highest address. -/
theorem Valid.sensorSlots_eq (hv : r.Valid) (ha : r.Addressed) :
    r.sensorSlots = addressSpan r.decls := by
  have hiff : ∀ n, r.sensorSlots ≤ n ↔ addressSpan r.decls ≤ n := by
    intro n
    rw [hv.sensorSlots_le_iff, addressSpan_le_iff]
    simp only [← hv.mem_addresses_iff ha, List.forall_mem_map]
  exact Nat.le_antisymm ((hiff _).2 (Nat.le_refl _)) ((hiff _).1 (Nat.le_refl _))

/-- The length of the layout, told from the declarations. -/
theorem Holds.slotCount_eq (hh : r.Holds records) (hv : r.Valid) :
    r.slotCount = addressSpan r.decls + r.decls.countP (·.kind.tag ≠ .sensor) := by
  rw [← hv.sensorSlots_eq (hh.addressed hv), ← hh.length_listed hv]
  unfold slotCount listed
  rw [List.length_append, List.length_append]
  omega

/-- Every declared address is within a limit if every taken address is. -/
theorem Valid.forall_address_iff (hv : r.Valid) (ha : r.Addressed) {P : UInt32 → Prop} :
    (∀ d ∈ r.decls, ∀ a, d.kind.address? = some a → P a) ↔ ∀ s ∈ r.sensors, P s.1 := by
  constructor
  · intro h s hs
    obtain ⟨d, hd, had⟩ := hv.sensor_decl s hs
    exact h d (List.mem_of_getElem? hd) s.1 had
  · intro h d hd a had
    obtain ⟨i, hi⟩ := List.getElem?_of_mem hd
    exact h (a, i) (ha i d a hi had)

/-- The limits hold of the declarations. -/
theorem Holds.checkCapacity_eq_ok_iff (hh : r.Holds records) (hv : r.Valid) :
    r.checkCapacity o = .ok () ↔
      (∀ d ∈ r.decls, ∀ a, d.kind.address? = some a →
        ∀ limit, o.maxSensorAddress = some limit → a ≤ limit) ∧
      addressSpan r.decls + r.decls.countP (·.kind.tag ≠ .sensor) ≤ o.nodeLimit := by
  rw [hv.forall_address_iff (hh.addressed hv), ← hh.slotCount_eq hv]
  have hsize : ∀ e : CompileError, ((if o.nodeLimit < r.slotCount then throw e else pure () :
      Except CompileError Unit) = .ok () ↔ r.slotCount ≤ o.nodeLimit) := by
    intro e
    split
    · next h => exact iff_of_false (by simp [throw, throwThe, MonadExceptOf.throw]) (by omega)
    · next h => exact iff_of_true rfl (by omega)
  unfold checkCapacity
  cases o.maxSensorAddress with
  | none => simpa using hsize _
  | some limit =>
    simp only [Option.some.injEq, forall_eq']
    cases hf : r.sensors.find? fun s => limit < s.1 with
    | none =>
      have hle : ∀ s ∈ r.sensors, s.1 ≤ limit := by
        simpa [List.find?_eq_none] using hf
      exact (hsize _).trans (and_iff_right hle).symm
    | some s =>
      obtain ⟨d, hd, -⟩ := hv.sensor_decl s (List.mem_of_find?_eq_some hf)
      have hlt : limit < s.1 := by simpa using List.find?_some hf
      refine iff_of_false ?_ fun h => ?_
      · simp [hd, throw, throwThe, MonadExceptOf.throw, bind, Except.bind]
      · exact absurd (h.1 s (List.mem_of_find?_eq_some hf)) (UInt32.not_le.2 hlt)

/-- What passes the limits is no longer than the limit on nodes. -/
theorem slotCount_le (h : r.checkCapacity o = .ok ()) : r.slotCount ≤ o.nodeLimit := by
  by_contra hlt
  rw [Nat.not_le] at hlt
  unfold checkCapacity at h
  simp only [if_pos hlt] at h
  split at h
  · split at h
    · split at h <;> cases h
    · cases h
  · cases h

end TrackPlan.Registry
