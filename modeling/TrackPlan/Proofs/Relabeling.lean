import TrackPlan.Proofs.Outcome
import TrackPlan.Proofs.Relabeling.Finishing

/-!
# Relabeled records compile alike

Every stage of a compilation keeps to a faithful relabeling, so the whole compilation does
(`compileRecords_relabel`). Two relabelings are used: `compileRecords_rename` is about names alone,
and lines alone are renumbered where a text is formatted anew.
-/

namespace TrackPlan

open Relabeling

variable {ρ : Relabeling} {r : Registry} {o : Options}

/-- A relabeled registry compiles to the relabeled track. -/
theorem Registry.Valid.compile_relabel (hρ : ρ.Faithful) (hv : r.Valid) :
    (r.relabel ρ).compile o = ρ.report (Track.relabel ρ) (r.compile o) := by
  unfold Registry.compile
  refine report_bind (hv.link_relabel hρ) fun g hlink => ?_
  have hg := (Registry.wires_of_link hlink).wellFormed hv
  refine report_bind (report_ofExcept (hg.check_relabel hρ)) fun _ _ => ?_
  refine report_bind (MutexTable.build_relabel hρ r.mutexes) fun mutexes _ => ?_
  refine report_bind (report_ofExcept (Calibration.extract_relabel hg hρ r.loop)) fun loop _ => ?_
  rfl

/-- Relabeled records compile to the relabeled track, or fail with the relabeled error. -/
theorem compileRecords_relabel (hρ : ρ.Faithful) (records : List LineRecord) (o : Options) :
    compileRecords (records.map (LineRecord.relabel ρ)) o =
      ρ.report (Track.relabel ρ) (compileRecords records o) := by
  unfold compileRecords
  refine report_bind (report_ofExcept (Registry.ofRecords_relabel hρ records)) fun r hr => ?_
  exact (Registry.reachable_ofRecords hr).valid.compile_relabel hρ

/-! ## Names alone -/

/-- A name that is not empty, as every name in a text is. -/
abbrev Name := {s : String // s ≠ ""}

/-- The names that a function gives; what has no name gets none, and lines stay. -/
def Relabeling.ofNames (f : Name → Name) : Relabeling where
  name s := if h : s = "" then "" else f ⟨s, h⟩
  line := id

theorem Relabeling.faithful_ofNames {f : Name → Name} (hf : Function.Injective f) :
    (ofNames f).Faithful where
  name_inj := by
    intro a b h
    unfold ofNames at h
    dsimp only at h
    by_cases ha : a = ""
    · by_cases hb : b = ""
      · rw [ha, hb]
      · rw [dif_pos ha, dif_neg hb] at h
        exact absurd h.symm (f ⟨b, hb⟩).2
    · by_cases hb : b = ""
      · rw [dif_neg ha, dif_pos hb] at h
        exact absurd h (f ⟨a, ha⟩).2
      · rw [dif_neg ha, dif_neg hb] at h
        exact congrArg Subtype.val (hf (Subtype.ext h))
  name_empty := by
    unfold ofNames
    dsimp only
    rw [dif_pos rfl]
  line_strictMono := strictMono_id

/-- **Renaming.** Records with other names, different names being kept apart, compile to the same
track with these names, or fail with the same error about these names. -/
theorem compileRecords_rename {f : Name → Name} (hf : Function.Injective f)
    (records : List LineRecord) (o : Options) :
    compileRecords (records.map (LineRecord.relabel (.ofNames f))) o =
      Relabeling.report (.ofNames f) (Track.relabel (.ofNames f)) (compileRecords records o) :=
  compileRecords_relabel (faithful_ofNames hf) records o

/-- A name with a letter in front. -/
def northern (s : Name) : Name := ⟨"N" ++ s.1, fun h => by
  have hlength := congrArg String.length h
  simp at hlength⟩

theorem northern_injective : Function.Injective northern := by
  intro a b h
  have hval : "N" ++ a.1 = "N" ++ b.1 := congrArg Subtype.val h
  exact Subtype.ext (String.append_right_inj "N" |>.1 hval)

/-- Two sensors that face each other, and a loop of one of them alone. -/
def brokenRound : List LineRecord :=
  [⟨1, .sensors ⟨"A", 0, "B"⟩ ⟨"B", 1, "A"⟩⟩, ⟨2, .calibration "A"⟩]

/-- No edge leads from a sensor back to itself, whatever it is called. -/
theorem compileRecords_rename_brokenRound :
    (compileRecords brokenRound {}).result = .error (.invalidLoop 2 (.gap "A" "A")) ∧
      (compileRecords (brokenRound.map (LineRecord.relabel (.ofNames northern))) {}).result =
        .error (.invalidLoop 2 (.gap "NA" "NA")) := by
  have h : (compileRecords brokenRound {}).result = .error (.invalidLoop 2 (.gap "A" "A")) := by
    decide +kernel
  refine ⟨h, ?_⟩
  rw [compileRecords_rename northern_injective]
  show Relabeling.result _ _ (compileRecords brokenRound {}).result = _
  rw [h]
  decide +kernel

end TrackPlan
