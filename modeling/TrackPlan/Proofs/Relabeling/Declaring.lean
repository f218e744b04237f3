import TrackPlan.Proofs.Registry.Reachable
import TrackPlan.Proofs.Relabeling.Basic

/-!
# Relabeled records are declared alike

A registry compares names only with each other, and never looks at a line. So relabeled records make
the relabeled registry, or fail with the relabeled error (`ofRecords_relabel`).
-/

namespace TrackPlan

variable {ρ : Relabeling}

/-- The declarations of a relabeled record. -/
theorem LineRecord.halves?_relabel (entry : LineRecord) : (entry.relabel ρ).halves? =
    entry.halves?.map fun halves => (halves.1.relabel ρ, halves.2.relabel ρ) := by
  obtain ⟨line, record⟩ := entry
  cases record <;> rfl

theorem LineRecord.distance?_relabel (entry : LineRecord) :
    (entry.relabel ρ).distance? = entry.distance?.map (DistanceDecl.relabel ρ) := by
  obtain ⟨line, record⟩ := entry
  cases record <;> rfl

theorem LineRecord.mutex?_relabel (entry : LineRecord) :
    (entry.relabel ρ).mutex? = entry.mutex?.map (MutexDecl.relabel ρ) := by
  obtain ⟨line, record⟩ := entry
  cases record <;> rfl

theorem LineRecord.step?_relabel (entry : LineRecord) :
    (entry.relabel ρ).step? = entry.step?.map (LoopStep.relabel ρ) := by
  obtain ⟨line, record⟩ := entry
  cases record <;> rfl

namespace Registry

open Relabeling

variable {r : Registry} {records : List LineRecord}

@[simp] theorem length_decls_relabel : (r.relabel ρ).decls.length = r.decls.length :=
  List.length_map _

@[simp] theorem getElem?_decls_relabel (i : Nat) :
    (r.relabel ρ).decls[i]? = r.decls[i]?.map (Decl.relabel ρ) :=
  List.getElem?_map

/-! ## One node -/

theorem lookup_names_relabel (hρ : ρ.Faithful) (name : String) :
    (r.relabel ρ).names.lookup (ρ.name name) = r.names.lookup name :=
  hρ.lookup_places r.names name

theorem decl?_relabel (hρ : ρ.Faithful) (name : String) :
    (r.relabel ρ).decl? (ρ.name name) = (r.decl? name).map (Decl.relabel ρ) := by
  unfold decl?
  rw [lookup_names_relabel hρ]
  cases r.names.lookup name with
  | none => rfl
  | some index => exact getElem?_decls_relabel index

theorem push_relabel (d : Decl) : (r.relabel ρ).push (d.relabel ρ) = (r.push d).relabel ρ := by
  simp [push, relabel, Relabeling.places, Decl.relabel]

theorem declare_relabel (hρ : ρ.Faithful) (d : Decl) :
    (r.relabel ρ).declare (d.relabel ρ) = ρ.result (relabel ρ) (r.declare d) := by
  unfold declare
  show (if ((r.relabel ρ).names.lookup (ρ.name d.name)).isSome then _ else _) = _
  rw [lookup_names_relabel hρ, push_relabel]
  split <;> rfl

theorem holder?_relabel (hρ : ρ.Faithful) (address : UInt32) :
    (r.relabel ρ).holder? address = (r.holder? address).map ρ.name := by
  have hsensors : (r.relabel ρ).sensors = r.sensors := rfl
  unfold holder?
  rw [hsensors]
  cases r.sensors.lookup address with
  | none => rfl
  | some index =>
    simp only [getElem?_decls_relabel, Option.map_some]
    cases r.decls[index]? with
    | none => exact congrArg some hρ.name_empty.symm
    | some d => rfl

theorem declareSensor_relabel (hρ : ρ.Faithful) (half : SensorHalf) (reverse : String)
    (line : Nat) : (r.relabel ρ).declareSensor (half.relabel ρ) (ρ.name reverse) (ρ.line line) =
      ρ.result (relabel ρ) (r.declareSensor half reverse line) := by
  have haddress : (half.relabel ρ).address = half.address := rfl
  unfold declareSensor
  rw [haddress, holder?_relabel hρ]
  cases r.holder? half.address with
  | some existing => rfl
  | none =>
    simp only [Option.map_none, length_decls_relabel]
    have hdeclare := declare_relabel (r := r) hρ
      ⟨half.name, reverse, .sensor half.address half.ahead, line⟩
    exact result_bind hdeclare fun r' _ => rfl

theorem declareNode_relabel (hρ : ρ.Faithful) (d : Decl) :
    (r.relabel ρ).declareNode (d.relabel ρ) = ρ.result (relabel ρ) (r.declareNode d) := by
  obtain ⟨name, reverse, kind, line⟩ := d
  cases kind with
  | sensor address ahead => exact declareSensor_relabel hρ ⟨name, address, ahead⟩ reverse line
  | _ => exact declare_relabel hρ _

/-! ## Records -/

theorem declarePair_relabel {first second first' second' : Registry → Except CompileError Registry}
    {list list' : Registry → Registry}
    (hfirst : ∀ r : Registry, first' (r.relabel ρ) = ρ.result (relabel ρ) (first r))
    (hsecond : ∀ r : Registry, second' (r.relabel ρ) = ρ.result (relabel ρ) (second r))
    (hlist : ∀ r : Registry, list' (r.relabel ρ) = (list r).relabel ρ) :
    (r.relabel ρ).declarePair first' second' list' =
      ((r.declarePair first second list).1.relabel ρ,
        ρ.result id (r.declarePair first second list).2) := by
  unfold declarePair
  rw [hfirst]
  cases first r with
  | error e => rfl
  | ok r₁ =>
    simp only [result_ok, hsecond]
    cases second r₁ with
    | error e => rfl
    | ok r₂ =>
      simp only [result_ok, hlist, id_eq]

theorem listPair_relabel (tag : Tag) (i : Nat) :
    (r.relabel ρ).listPair tag i = (r.listPair tag i).relabel ρ := by
  cases tag <;> rfl

theorem note_relabel (entry : LineRecord) :
    (r.relabel ρ).note (entry.relabel ρ) = (r.note entry).relabel ρ := by
  unfold note relabel
  simp only [LineRecord.distance?_relabel, LineRecord.mutex?_relabel, LineRecord.step?_relabel,
    List.map_append, Option.toList_map]

/-- The step: a relabeled record does what the record does. -/
theorem add_relabel (hρ : ρ.Faithful) (entry : LineRecord) :
    (r.relabel ρ).add (entry.relabel ρ) =
      ((r.add entry).1.relabel ρ, ρ.result id (r.add entry).2) := by
  have hhalves := entry.halves?_relabel (ρ := ρ)
  cases h : entry.halves? with
  | none =>
    rw [h, Option.map_none] at hhalves
    rw [add_note hhalves, add_note h, note_relabel]
    rfl
  | some halves =>
    obtain ⟨d, d'⟩ := halves
    rw [h, Option.map_some] at hhalves
    rw [add_pair hhalves, add_pair h]
    refine declarePair_relabel (fun r => declareNode_relabel hρ d)
      (fun r => declareNode_relabel hρ d') fun r' => ?_
    rw [length_decls_relabel, ← listPair_relabel]
    exact congrArg (fun tag => (r'.relabel ρ).listPair tag r.decls.length) Kind.tag_map

theorem addAll_relabel (hρ : ρ.Faithful) (records : List LineRecord) :
    (r.relabel ρ).addAll (records.map (LineRecord.relabel ρ)) =
      ρ.result (relabel ρ) (r.addAll records) := by
  induction records generalizing r with
  | nil => rfl
  | cons entry rest ih =>
    rw [List.map_cons, addAll, addAll, add_relabel hρ]
    cases hadd : r.add entry with
    | mk r' outcome =>
      cases outcome with
      | error e => rfl
      | ok u => exact ih

/-- The run: relabeled records make the relabeled registry. -/
theorem ofRecords_relabel (hρ : ρ.Faithful) (records : List LineRecord) :
    ofRecords (records.map (LineRecord.relabel ρ)) =
      ρ.result (relabel ρ) (ofRecords records) :=
  addAll_relabel (r := empty) hρ records

end Registry

end TrackPlan
