import TrackPlan.Proofs.Outcome
import TrackPlan.Proofs.Registry.Capacity

/-!
# Where declaring fails

A node is refused if its name or its address is taken, and the error says by whom (`Refused`). A
record fails at one of its halves (`Valid.add_eq_error`), and a list of records at the first record
that fails (`ofRecords_eq_error`). The limits come after that (`Valid.checkCapacity_eq_error`).
-/

namespace TrackPlan

/-- A node cannot be declared after the others, and the error that says why. -/
inductive Refused (decls : List Decl) (d : Decl) : CompileError → Prop
  | name (h : Declared decls d.name) : Refused decls d (.duplicateName d.line d.name)
  | address {a : UInt32} {d' : Decl} (ha : d.kind.address? = some a) (hd' : d' ∈ decls)
    (ha' : d'.kind.address? = some a) :
    Refused decls d (.duplicateAddress d.line a d.name d'.name)

namespace Registry

variable {r r' : Registry} {d d' : Decl} {e : CompileError} {entry : LineRecord}
  {records done : List LineRecord} {o : Options}

theorem declare_eq_error : r.declare d = .error e ↔
    Declared r.decls d.name ∧ e = .duplicateName d.line d.name := by
  unfold declare Declared
  rw [← lookup_names_isSome_iff]
  split
  · next h => simp [h, eq_comm]
  · next h => simp [h]

/-- The holder of an address is a sensor declared with it. -/
theorem Valid.exists_of_holder? (hv : r.Valid) {a : UInt32} {name : String}
    (h : r.holder? a = some name) :
    ∃ d ∈ r.decls, d.kind.address? = some a ∧ d.name = name := by
  unfold holder? at h
  split at h
  · next i hi =>
    obtain ⟨front, back, hs, -⟩ := List.lookup_eq_some_iff.1 hi
    obtain ⟨d, hd, ha⟩ := hv.sensor_decl (a, i) (by rw [hs]; simp)
    rw [hd] at h
    exact ⟨d, List.mem_of_getElem? hd, ha, Option.some.inj h⟩
  · cases h

theorem Valid.refused_of_declareNode (hv : r.Valid) (h : r.declareNode d = .error e) :
    Refused r.decls d e := by
  obtain ⟨name, reverse, kind, line⟩ := d
  cases kind
  case sensor a ahead =>
    have h : r.declareSensor ⟨name, a, ahead⟩ reverse line = .error e := h
    unfold declareSensor at h
    split at h
    · next existing hh =>
      obtain ⟨d', hd', ha', rfl⟩ := hv.exists_of_holder? hh
      cases h
      exact .address rfl hd' ha'
    · rcases bind_eq_error_iff.1 h with h | ⟨r', -, h⟩
      · obtain ⟨hn, rfl⟩ := declare_eq_error.1 h
        exact .name hn
      · cases h
  all_goals
    obtain ⟨hn, rfl⟩ := declare_eq_error.1 h
    exact .name hn

/-- A record that fails, fails at its forward half and changes nothing, or at its backward half and
leaves the forward half declared. -/
theorem Valid.add_eq_error (hv : r.Valid) (h : r.add entry = (r', .error e)) :
    ∃ d d', entry.halves? = some (d, d') ∧ (r' = r ∧ Refused r.decls d e ∨
      r' = r.grow d ∧ r.Admits d ∧ Refused (r.decls ++ [d]) d' e) := by
  cases hh : entry.halves? with
  | none =>
    rw [add_note hh] at h
    cases h
  | some halves =>
    obtain ⟨d, d'⟩ := halves
    refine ⟨d, d', rfl, ?_⟩
    rw [add_pair hh] at h
    unfold declarePair at h
    dsimp only at h
    split at h
    · next e₁ h₁ =>
      cases h
      exact Or.inl ⟨rfl, hv.refused_of_declareNode h₁⟩
    · next r₁ h₁ =>
      obtain ⟨ha, rfl⟩ := declareNode_eq_ok.1 h₁
      split at h
      · next e₂ h₂ =>
        cases h
        exact Or.inr ⟨rfl, ha, (hv.grow ha).refused_of_declareNode h₂⟩
      · cases h

/-- The run: a list of records fails at a node which is refused after all that are declared
earlier. -/
theorem Valid.addAll_eq_error (hv : r.Valid) (hh : r.Holds done)
    (h : r.addAll records = .error e) : ∃ before entry after earlier d later,
      records = before ++ entry :: after ∧ entry.halves = earlier ++ d :: later ∧
        Refused (declsOf (done ++ before) ++ earlier) d e := by
  induction records generalizing r done with
  | nil => cases h
  | cons entry rest ih =>
    unfold addAll at h
    split at h
    · next r₁ hadd =>
      have hv₁ : r₁.Valid := by
        have := hv.add entry
        rwa [hadd] at this
      obtain ⟨before, entry', after, earlier, d, later, rfl, hhalves, hr⟩ :=
        ih hv₁ (hh.add hadd) h
      rw [List.append_assoc] at hr
      exact ⟨entry :: before, entry', after, earlier, d, later, rfl, hhalves, hr⟩
    · next r₁ e' hadd =>
      cases h
      obtain ⟨d, d', hhalves, hr⟩ := hv.add_eq_error hadd
      have hlist : entry.halves = [d, d'] := by rw [LineRecord.halves, hhalves]
      rw [hh.decls_eq] at hr
      rcases hr with ⟨-, hr⟩ | ⟨-, -, hr⟩
      · exact ⟨[], entry, rest, [], d, [d'], rfl, hlist, by simpa using hr⟩
      · exact ⟨[], entry, rest, [d], d', [], rfl, hlist, by simpa using hr⟩

theorem ofRecords_eq_error (h : ofRecords records = .error e) :
    ∃ before entry after earlier d later, records = before ++ entry :: after ∧
      entry.halves = earlier ++ d :: later ∧ Refused (declsOf before ++ earlier) d e :=
  Valid.empty.addAll_eq_error Holds.empty h

/-- The limits fail because of a declared address, or because of the length of the layout. -/
theorem Valid.checkCapacity_eq_error (hv : r.Valid) (h : r.checkCapacity o = .error e) :
    (∃ d ∈ r.decls, ∃ a limit, d.kind.address? = some a ∧ o.maxSensorAddress = some limit ∧
      limit < a ∧ e = .addressOutOfRange d.line d.name a limit) ∨
    (o.nodeLimit < r.slotCount ∧ e = .tooManyNodes r.slotCount o.nodeLimit) := by
  have hsize : ∀ {x : CompileError}, (if o.nodeLimit < r.slotCount then throw x else pure () :
      Except CompileError Unit) = .error e → o.nodeLimit < r.slotCount ∧ e = x := by
    intro x hx
    split at hx
    · next hlt =>
      cases hx
      exact ⟨hlt, rfl⟩
    · cases hx
  unfold checkCapacity at h
  cases ho : o.maxSensorAddress with
  | none =>
    rw [ho] at h
    exact Or.inr (hsize h)
  | some limit =>
    rw [ho] at h
    cases hf : r.sensors.find? fun s => limit < s.1 with
    | none =>
      simp only [hf] at h
      exact Or.inr (hsize h)
    | some s =>
      obtain ⟨d, hd, ha⟩ := hv.sensor_decl s (List.mem_of_find?_eq_some hf)
      have hlt : limit < s.1 := by simpa using List.find?_some hf
      simp only [hf, hd] at h
      cases h
      exact Or.inl ⟨d, List.mem_of_getElem? hd, s.1, limit, ha, rfl, hlt, rfl⟩

end Registry

end TrackPlan
