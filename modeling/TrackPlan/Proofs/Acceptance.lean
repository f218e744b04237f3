import TrackPlan.Proofs.Calibration
import TrackPlan.Proofs.Compile
import TrackPlan.Proofs.Graph.Covering
import TrackPlan.Proofs.Mutex.Components
import TrackPlan.Proofs.Record.Reading
import TrackPlan.Proofs.Registry.Capacity

/-!
# Which descriptions compile

A description compiles if its lines follow the grammar and its records are well described, and not
otherwise. Every stage has an equivalence of its own, and here they are put together.

1. `Draws.exists_build_iff` says by name when there is a mutex table; the other stages have this
   in their own modules.
2. `Holds.exists_link_iff` and `Draws.exists_finish_iff` are the two halves of the compilation of a
   registry, before and after the checks.
3. `compiles_iff_wellDescribed` adds reading and declaring.
-/

namespace TrackPlan

namespace Registry

variable {r : Registry} {g : Graph} {records : List LineRecord} {o : Options} {a b : String}

/-! ## The stages of a registry -/

/-- Two names name an edge if the first leads to the second. -/
theorem Draws.exists_namesEdge_iff (h : r.Draws g records) :
    (∃ k, g.NamesEdge a b k) ↔ Leads (declsOf records) a b := by
  constructor
  · intro hs
    obtain ⟨k, i, j, hi, hj, hk⟩ := hs
    exact (h.leads_iff_follows hi hj).2 (h.wellFormed.exists_edgeBetween?_iff.1 ⟨k, hk⟩)
  · intro hab
    obtain ⟨i, j, hi, hj, hf⟩ := h.declared_of_leads hab
    obtain ⟨k, hk⟩ := h.wellFormed.exists_edgeBetween?_iff.2 hf
    exact ⟨k, i, j, hi, hj, hk⟩

theorem Draws.exists_build_iff (h : r.Draws g records) :
    (∃ t, (MutexTable.build g r.mutexes).result = .ok t) ↔
      ∀ m ∈ records.filterMap LineRecord.mutex?, ∀ p ∈ m.edges,
        Leads (declsOf records) p.1 p.2 := by
  rw [Graph.exists_build_iff, h.holds.mutexes_eq]
  simp only [h.exists_namesEdge_iff]

/-- The mutex groups and the loop of a graph. -/
theorem Draws.exists_finish_iff (h : r.Draws g records) :
    ((∃ t, (MutexTable.build g r.mutexes).result = .ok t) ∧
        ∃ l, Calibration.extract g r.loop = .ok l) ↔
      (∀ m ∈ records.filterMap LineRecord.mutex?, ∀ p ∈ m.edges,
        Leads (declsOf records) p.1 p.2) ∧
      (openRound ((records.filterMap LineRecord.step?).map LoopStep.node) = [] ∨
        ClosedRound (declsOf records)
          (openRound ((records.filterMap LineRecord.step?).map LoopStep.node))) := by
  rw [h.exists_build_iff, h.exists_extract_iff, h.holds.loop_eq]

/-- A registry is linked if it fits the limits, every name in it is declared, and its distances
are attached. This needs a track that can be travelled both ways, which is checked only later. -/
theorem Holds.exists_link_iff (hh : r.Holds records) (hv : r.Valid)
    (hback : LeadsBack (declsOf records)) : (∃ g, (r.link o).result = .ok g) ↔
      ((∀ d ∈ declsOf records, ∀ a, d.kind.address? = some a →
          ∀ limit, o.maxSensorAddress = some limit → a ≤ limit) ∧
        addressSpan (declsOf records) +
          (declsOf records).countP (·.kind.tag ≠ .sensor) ≤ o.nodeLimit) ∧
      (∀ d ∈ declsOf records, ∀ s ∈ d.kind.successors, Declared (declsOf records) s) ∧
      (∀ x ∈ records.filterMap LineRecord.distance?,
        Declared (declsOf records) x.src ∧ Declared (declsOf records) x.dest) ∧
      (∀ x ∈ records.filterMap LineRecord.distance?,
        Leads (declsOf records) x.src x.dest) ∧
      (o.requireDistances = true → Forks (declsOf records) ∧
        ∀ a b, Leads (declsOf records) a b →
          ∃ x ∈ records.filterMap LineRecord.distance?, Covers (declsOf records) x a b) := by
  rw [← hh.exists_wire_iff hv]
  have hcapacity := hh.checkCapacity_eq_ok_iff hv (o := o)
  rw [hh.decls_eq] at hcapacity
  rw [← hcapacity]
  simp only [link_eq_ok]
  constructor
  · intro h
    obtain ⟨g, hcap, g₀, hwire, t, ht, hattach, -⟩ := h
    have hg₀ : r.Draws g₀ records := ⟨hv, hh, wires_of_wire hwire⟩
    exact ⟨hcap, ⟨g₀, hwire⟩,
      (hg₀.exists_attach_iff (hg₀.reversible_iff.2 hback)).1 ⟨t, ht, hattach⟩⟩
  · intro h
    obtain ⟨hcap, ⟨g₀, hwire⟩, hdistances⟩ := h
    have hg₀ : r.Draws g₀ records := ⟨hv, hh, wires_of_wire hwire⟩
    obtain ⟨t, ht, hattach⟩ :=
      (hg₀.exists_attach_iff (hg₀.reversible_iff.2 hback)).2 hdistances
    exact ⟨_, hcap, g₀, hwire, t, ht, hattach, rfl⟩

/-- A registry compiles if its records are well described. -/
theorem Holds.exists_compile_iff (hh : r.Holds records) (hv : r.Valid) :
    (∃ t, (r.compile o).result = .ok t) ↔ WellDescribed records o := by
  simp only [compile_eq_ok]
  constructor
  · intro h
    obtain ⟨t, hlink, hcheck, hmutex, hloop⟩ := h
    have hg : r.Draws t.graph records := ⟨hv, hh, wires_of_link hlink⟩
    have hback := hg.check_eq_ok_iff.1 hcheck
    obtain ⟨⟨haddress, hsize⟩, hsuccessors, hdeclared, hleads, hcovered⟩ :=
      (hh.exists_link_iff hv hback).1 ⟨_, hlink⟩
    obtain ⟨hmutexes, hround⟩ := hg.exists_finish_iff.1 ⟨⟨_, hmutex⟩, _, hloop⟩
    exact {
      distinct := hh.decls_eq ▸ hv.distinct (hh.addressed hv)
      address_le := haddress
      size_le := hsize
      successors_declared := hsuccessors
      distances_declared := hdeclared
      distances_lead := hleads
      reversible := hback
      covered := hcovered
      mutexes_lead := hmutexes
      loop := hround }
  · intro hw
    obtain ⟨g, hlink⟩ := (hh.exists_link_iff hv hw.reversible).2
      ⟨⟨hw.address_le, hw.size_le⟩, hw.successors_declared, hw.distances_declared,
        hw.distances_lead, hw.covered⟩
    have hg : r.Draws g records := ⟨hv, hh, wires_of_link hlink⟩
    obtain ⟨⟨m, hmutex⟩, l, hloop⟩ := hg.exists_finish_iff.2 ⟨hw.mutexes_lead, hw.loop⟩
    exact ⟨⟨g, m, l⟩, hlink, hg.check_eq_ok_iff.2 hw.reversible, hmutex, hloop⟩

end Registry

/-! ## The whole compilation -/

/-- **Acceptance.** A text compiles exactly if it is a list of records by the grammar, and these are
well described. -/
theorem compiles_iff_wellDescribed (text : String) (o : Options) :
    (∃ t, (compile text o).result = .ok t) ↔
      ∃ records, Describes text records ∧ WellDescribed records o := by
  simp only [compile_eq_ok, readRecords_eq_ok_iff]
  constructor
  · intro h
    obtain ⟨t, records, hread, r, hr, hc⟩ := h
    have hv := (Registry.reachable_ofRecords hr).valid
    exact ⟨records, hread, ((Registry.holds_ofRecords hr).exists_compile_iff hv).1 ⟨t, hc⟩⟩
  · intro h
    obtain ⟨records, hread, hw⟩ := h
    obtain ⟨r, hr⟩ := Registry.exists_ofRecords_iff.2 hw.distinct
    have hv := (Registry.reachable_ofRecords hr).valid
    obtain ⟨t, hc⟩ := ((Registry.holds_ofRecords hr).exists_compile_iff hv).2 hw
    exact ⟨t, records, hread, r, hr, hc⟩

end TrackPlan
