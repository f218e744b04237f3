import TrackPlan.Proofs.Failure.Declaring
import TrackPlan.Proofs.Registry.Orderly

/-!
# What a record that fails leaves behind

A record that declares two nodes may fail at either of them, and is not taken back when it fails at
the second. `Failing` says what the registry looks like then: whatever stood there before is left
alone, and at most the forward half is new (`Valid.leaves_of_add`). It has no place in the layout
unless it is a sensor (`Leaves.layout_eq`).
-/

namespace TrackPlan.Registry

variable {r r' : Registry} {d d' : Decl} {e : CompileError} {entry : LineRecord}

/-- What a failed record with the given halves leaves of a registry. -/
inductive Leaves (r : Registry) (d d' : Decl) (e : CompileError) : Registry → Prop
  /-- The forward half is refused, and nothing changes. -/
  | nothing (hd : ¬ r.Admits d) (he : Refused r.decls d e) : Leaves r d d' e r
  /-- The backward half is refused when the forward half is declared already, and that one stays,
  with its address if it is a sensor. -/
  | forward (hd : r.Admits d) (hd' : ¬ (r.grow d).Admits d') (he : Refused (r.decls ++ [d]) d' e) :
    Leaves r d d' e (r.grow d)

/-- The registry before and after a record that fails. -/
structure Failing (r : Registry) (entry : LineRecord) (e : CompileError) (r' : Registry) :
    Prop where
  /-- Only a record that declares nodes fails. -/
  record_ne : (∀ src dest mm, entry.record ≠ .distance src dest mm) ∧
    (∀ edges, entry.record ≠ .mutex edges) ∧ ∀ node, entry.record ≠ .calibration node
  leaves : ∃ d d', entry.halves? = some (d, d') ∧ r.Leaves d d' e r'
  /-- Switches, ends, separators, distances, mutexes and the loop stay as they are. -/
  frame : r' = { r with
    decls := r'.decls, names := r'.names, names_eq := r'.names_eq, sensors := r'.sensors }
  /-- The address of the forward half is all that can be new among the addresses. -/
  mem_sensors_iff : ∀ s, s ∈ r'.sensors ↔ s ∈ r.sensors ∨ r'.decls ≠ r.decls ∧
    ∃ forward backward, entry.record = .sensors forward backward ∧
      s = (forward.address, r.decls.length)
  layout_eq : (∀ forward backward, entry.record ≠ .sensors forward backward) →
    r'.layout = r.layout ∧ r'.placed = r.placed ∧ r'.slotCount = r.slotCount ∧
      r'.sensorSlots = r.sensorSlots

/-- A node without an address has no place before it is listed. -/
theorem Valid.placed_grow (hv : r.Valid) (h : d.kind.address? = none) :
    (r.grow d).placed = r.placed := by
  rw [grow_of_address?_eq_none h]
  unfold placed
  refine List.map_congr_left fun i? hi? => ?_
  cases i? with
  | none => rfl
  | some i =>
    obtain ⟨p, hp⟩ := List.getElem?_of_mem hi?
    obtain ⟨c, hc⟩ := hv.exists_decl (r := r) hp
    have hlt := (List.getElem?_eq_some_iff.1 hc).1
    exact List.getElem?_append_left hlt

theorem address?_of_halves? (h : entry.halves? = some (d, d')) {a : UInt32} :
    d.kind.address? = some a ↔
      ∃ forward backward, entry.record = .sensors forward backward ∧ a = forward.address := by
  obtain ⟨line, record⟩ := entry
  cases record <;> cases h <;> simp [Kind.address?, eq_comm]

theorem grow_ne : r.grow d ≠ r := by
  intro h
  have := congrArg (fun r : Registry => r.decls.length) h
  simp at this

theorem Valid.leaves_of_add (hv : r.Valid) (h : r.add entry = (r', .error e)) :
    ∃ d d', entry.halves? = some (d, d') ∧ r.Leaves d d' e r' := by
  obtain ⟨d, d', hhalves, hleft⟩ := hv.add_eq_error h
  refine ⟨d, d', hhalves, ?_⟩
  have hcases := add_cases (r := r) hhalves
  -- One lemma knows the error, the other what is free: both know whether a half was declared.
  simp only [h, Prod.mk.injEq, reduceCtorEq, and_false, or_false] at hcases
  rcases hcases with ⟨hd, -, hr, -⟩ | ⟨hd, hd', -, hr, -⟩
  · rcases hleft with ⟨rfl, he⟩ | ⟨rfl, -⟩
    · exact .nothing hd he
    · exact absurd hr grow_ne
  · rcases hleft with ⟨rfl, -⟩ | ⟨rfl, -, he⟩
    · exact absurd hr.symm grow_ne
    · exact .forward hd hd' he

theorem Leaves.frame (h : r.Leaves d d' e r') :
    r' = { r with
      decls := r'.decls, names := r'.names, names_eq := r'.names_eq, sensors := r'.sensors } := by
  cases h <;> rfl

/-- Only the address of the forward half can be new. -/
theorem Leaves.mem_sensors_iff (h : r.Leaves d d' e r') {s : UInt32 × Nat} : s ∈ r'.sensors ↔
    s ∈ r.sensors ∨ r'.decls ≠ r.decls ∧ d.kind.address? = some s.1 ∧ s.2 = r.decls.length := by
  cases h with
  | nothing => simp
  | forward => simp [mem_sensors_grow]

/-- A forward half without an address moves nothing in the layout. -/
theorem Leaves.layout_eq (hv : r.Valid) (h : r.Leaves d d' e r') (ha : d.kind.address? = none) :
    r'.layout = r.layout ∧ r'.placed = r.placed ∧ r'.slotCount = r.slotCount ∧
      r'.sensorSlots = r.sensorSlots := by
  cases h with
  | nothing => exact ⟨rfl, rfl, rfl, rfl⟩
  | forward =>
    refine ⟨?_, hv.placed_grow ha, ?_, ?_⟩ <;> rw [grow_of_address?_eq_none ha] <;> rfl

/-- A record that fails declares its forward half at most, and a record that declares no nodes does
not fail. -/
theorem Reachable.failing_of_add (hr : r.Reachable) (h : r.add entry = (r', .error e)) :
    r.Failing entry e r' := by
  have hv := hr.valid
  obtain ⟨d, d', hhalves, hleaves⟩ := hv.leaves_of_add h
  have hrecord : (∀ src dest mm, entry.record ≠ .distance src dest mm) ∧
      (∀ edges, entry.record ≠ .mutex edges) ∧ ∀ node, entry.record ≠ .calibration node := by
    obtain ⟨line, record⟩ := entry
    cases record <;> cases hhalves <;> simp
  have hsensors : ∀ s, s ∈ r'.sensors ↔ s ∈ r.sensors ∨ r'.decls ≠ r.decls ∧
      ∃ forward backward, entry.record = .sensors forward backward ∧
        s = (forward.address, r.decls.length) := by
    intro s
    rw [hleaves.mem_sensors_iff, address?_of_halves? hhalves]
    simp only [Prod.ext_iff]
    tauto
  have hplain : (∀ forward backward, entry.record ≠ .sensors forward backward) →
      d.kind.address? = none := by
    intro hne
    rw [Option.eq_none_iff_forall_ne_some]
    intro a ha
    obtain ⟨forward, backward, hs, -⟩ := (address?_of_halves? hhalves).1 ha
    exact hne forward backward hs
  exact ⟨hrecord, ⟨d, d', hhalves, hleaves⟩, hleaves.frame, hsensors,
    fun hne => hleaves.layout_eq hv (hplain hne)⟩

/-- A sensor pair whose backward address is taken already in `scattered`. -/
def clashing : LineRecord := ⟨8, .sensors ⟨"G", 5, "B"⟩ ⟨"H", 1, "A"⟩⟩

/-- What `clashing` leaves of `scattered`. -/
def scatteredHalf : Registry :=
  { scattered.push ⟨"G", "H", .sensor 5 "B", 8⟩ with
    sensors := [(0, 0), (1, 5), (3, 1), (5, 11)] }

/-- The forward sensor stays, and the layout grows up to its address. -/
theorem failing_scattered : scattered.Reachable ∧
    scattered.add clashing = (scatteredHalf, .error (.duplicateAddress 8 1 "H" "C")) ∧
    scattered.Failing clashing (.duplicateAddress 8 1 "H" "C") scatteredHalf ∧
    scatteredHalf.layout = [some 0, some 5, none, some 1, none, some 11, some 2, some 3, some 7,
      some 8, some 9, some 10] :=
  ⟨reachable_scattered, rfl, reachable_scattered.failing_of_add rfl, by decide⟩

end TrackPlan.Registry
