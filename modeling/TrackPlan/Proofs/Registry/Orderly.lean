import TrackPlan.Proofs.Registry.Layout

/-!
# Orderly registries

Names, addresses and the listed pairs of a registry are kept in containers of their own, and every
call may fail on the way. `Orderly` says what a user may rely on all the same: a name finds its
declaration, addresses ascend and belong to sensors, and the layout has its classes in order, each
in complete pairs. `Reachable.orderly` states it of every registry that calls can make.
-/

namespace TrackPlan.Registry

/-- What a registry and its layout look like from outside. -/
structure Orderly (r : Registry) : Prop where
  names_nodup : (r.decls.map Decl.name).Nodup
  /-- A name finds the one declaration that has it. -/
  decl?_iff : ∀ {s d}, r.decl? s = some d ↔ d ∈ r.decls ∧ d.name = s
  addresses_ascending : r.sensors.Pairwise fun s t => s.1 < t.1
  /-- An address belongs to a sensor that was declared with it. -/
  sensor_decl : ∀ s ∈ r.sensors, ∃ d ahead,
    r.decls[s.2]? = some d ∧ d.kind = .sensor s.1 ahead
  address_lt : ∀ s ∈ r.sensors, s.1.toNat < r.sensorSlots
  layout_length : r.layout.length = r.slotCount
  /-- No declaration has two positions. -/
  position_unique : ∀ {p q i : Nat}, r.layout[p]? = some (some i) →
    r.layout[q]? = some (some i) → p = q
  /-- A place of a sensor holds the one with that address. -/
  sensor_place : ∀ {p i : Nat}, p < r.sensorSlots →
    (r.layout[p]? = some (some i) ↔ ∃ a, (a, i) ∈ r.sensors ∧ a.toNat = p)
  /-- Dummies fill the places whose address no sensor has, and no others. -/
  dummy_place : ∀ {p : Nat}, r.layout[p]? = some none ↔
    p < r.sensorSlots ∧ ∀ s ∈ r.sensors, s.1.toNat ≠ p
  /-- Behind the sensors stand switches, ends of the track and separators, in this order and in
  complete pairs. -/
  classes : ∃ switches terminals separators : List Nat,
    r.layout.drop r.sensorSlots = (switches ++ terminals ++ separators).map some ∧
      Pairs r.decls .branch switches ∧ Pairs r.decls .enter terminals ∧
        Pairs r.decls .separator separators

variable {r : Registry} {p i : Nat}

/-- A place that no sensor takes holds a dummy. -/
theorem Valid.layout_eq_none_iff (hv : r.Valid) : r.layout[p]? = some none ↔
    p < r.sensorSlots ∧ ∀ s ∈ r.sensors, s.1.toNat ≠ p := by
  by_cases hp : p < r.sensorSlots
  · rw [getElem?_layout_of_lt hp, Option.some.injEq, and_iff_right hp]
    have hof : (UInt32.ofNat p).toNat = p :=
      UInt32.toNat_ofNat_of_lt' (Nat.lt_of_lt_of_le hp r.sensorSlots_le)
    constructor
    · rintro hnone s hs rfl
      rw [UInt32.ofNat_toNat, hv.lookup_sensors.2 hs] at hnone
      cases hnone
    · intro hfree
      rw [List.lookup_eq_none_iff]
      intro s hs
      rw [bne_iff_ne]
      exact fun heq => hfree s hs (by rw [← heq, hof])
  · obtain ⟨k, rfl⟩ := Nat.exists_eq_add_of_le (Nat.le_of_not_lt hp)
    rw [getElem?_layout_add]
    exact iff_of_false (by simp) fun h => hp h.1

theorem drop_layout (r : Registry) :
    r.layout.drop r.sensorSlots = (r.switches ++ r.terminals ++ r.separators).map some := by
  unfold layout
  rw [List.drop_left' (by simp)]

theorem orderly_of_valid (hv : r.Valid) : r.Orderly where
  names_nodup := hv.names_nodup
  decl?_iff := hv.decl?_eq_some_iff
  addresses_ascending := hv.addresses_ascending
  sensor_decl := by
    intro s hs
    obtain ⟨d, hd, had⟩ := hv.sensor_decl s hs
    cases hk : d.kind <;> rw [hk] at had <;> cases had
    exact ⟨d, _, hd, hk⟩
  address_lt := fun _ => hv.toNat_lt_sensorSlots
  layout_length := r.length_layout
  position_unique := hv.layout_inj
  sensor_place := by
    intro p i hp
    rw [hv.layout_eq_some_iff]
    refine or_iff_left ?_
    rintro ⟨k, rfl, -⟩
    omega
  dummy_place := hv.layout_eq_none_iff
  classes := ⟨_, _, _, r.drop_layout, hv.switches, hv.terminals, hv.separators⟩

/-- **Orderly registries.** Every registry that calls can make is orderly, whatever their arguments
and whichever of them failed. -/
theorem Reachable.orderly (hr : r.Reachable) : r.Orderly := orderly_of_valid hr.valid

/-- A separator whose backward half repeats a name, a sensor whose backward half repeats an address,
and a sensor that was declared by itself, among records that were taken. -/
def scattered : Registry :=
  { decls := [⟨"A", "B", .sensor 0 "B", 1⟩, ⟨"B", "A", .sensor 3 "A", 1⟩,
      ⟨"S", "M", .branch 1 "A" "B", 2⟩, ⟨"M", "S", .merge 1 "A", 2⟩,
      ⟨"P", "A", .separator "B", 3⟩, ⟨"C", "D", .sensor 1 "B", 4⟩, ⟨"R", "P", .sensor 2 "A", 5⟩,
      ⟨"E", "X", .enter "A", 6⟩, ⟨"X", "E", .exit, 6⟩,
      ⟨"U", "V", .separator "X", 7⟩, ⟨"V", "U", .separator "X", 7⟩]
    names := [("A", 0), ("B", 1), ("S", 2), ("M", 3), ("P", 4), ("C", 5), ("R", 6), ("E", 7),
      ("X", 8), ("U", 9), ("V", 10)]
    sensors := [(0, 0), (1, 5), (3, 1)]
    switches := [2, 3]
    terminals := [7, 8]
    separators := [9, 10] }

theorem reachable_scattered : scattered.Reachable := by
  have h := ((((Reachable.empty.add ⟨1, .sensors ⟨"A", 0, "B"⟩ ⟨"B", 3, "A"⟩⟩).add
    ⟨2, .switch "S" 1 "A" "B" "M" "A"⟩).add
    ⟨3, .separators ⟨"P", "B"⟩ ⟨"A", "B"⟩⟩).add
    ⟨4, .sensors ⟨"C", 1, "B"⟩ ⟨"D", 3, "A"⟩⟩).declare (d := ⟨"R", "P", .sensor 2 "A", 5⟩) rfl
  exact (h.add ⟨6, .terminal "E" "A" "X"⟩).add ⟨7, .separators ⟨"U", "X"⟩ ⟨"V", "X"⟩⟩

/-- The sensor that was declared by itself has no place: a dummy stands at its address. -/
theorem orderly_scattered : scattered.Reachable ∧ scattered.Orderly ∧
    scattered.layout = [some 0, some 5, none, some 1, some 2, some 3, some 7, some 8, some 9,
      some 10] :=
  ⟨reachable_scattered, reachable_scattered.orderly, by decide⟩

end TrackPlan.Registry
