import TrackPlan.Proofs.Acceptance

/-!
# Records in another order

Records of a description fall into classes. `Reordered` says of two lists that they have the same
records, whatever their lines, and that the records of each class stand in the same order, sensors
apart. `Rearranged` leaves the order of the distances open, too.

1. `Rearranged.decls_perm`, `Rearranged.filter_decls` and the like say what that means for what the
   records declare.
2. `Rearranged.wellDescribed`: it makes no difference for whether the records are well described.
-/

namespace TrackPlan

/-- What a record is about. -/
inductive Record.Class where
  | sensors | separators | switches | terminals | distances | mutexes | steps
  deriving DecidableEq, Repr

/-- The class of a record. -/
def Record.classOf : Record → Class
  | sensors .. => .sensors
  | separators .. => .separators
  | switch .. => .switches
  | terminal .. => .terminals
  | distance .. => .distances
  | mutex .. => .mutexes
  | calibration .. => .steps

/-- The class of the records that declare nodes with the tag. No record declares a dummy. -/
def Tag.classOf : Tag → Record.Class
  | sensor | dummy => .sensors
  | separator => .separators
  | branch | merge => .switches
  | enter | exit => .terminals

theorem Tag.classOf_opposite (t : Tag) : t.opposite.classOf = t.classOf := by cases t <;> rfl

/-! ## Without lines -/

/-- The record without its line. -/
def LineRecord.unnumbered (entry : LineRecord) : LineRecord := { entry with line := 0 }

/-- The declaration without its line. -/
def Decl.unnumbered (d : Decl) : Decl := { d with line := 0 }

/-- The distance without its line. -/
def DistanceDecl.unnumbered (x : DistanceDecl) : DistanceDecl := { x with line := 0 }

/-- The mutex record without its line. -/
def MutexDecl.unnumbered (m : MutexDecl) : MutexDecl := { m with line := 0 }

/-- The step without its line. -/
def LoopStep.unnumbered (s : LoopStep) : LoopStep := { s with line := 0 }

namespace LineRecord

variable {entry : LineRecord}

theorem halves_unnumbered : entry.unnumbered.halves = entry.halves.map Decl.unnumbered := by
  obtain ⟨line, record⟩ := entry
  cases record <;> rfl

theorem distance?_unnumbered :
    entry.unnumbered.distance? = entry.distance?.map DistanceDecl.unnumbered := by
  obtain ⟨line, record⟩ := entry
  cases record <;> rfl

theorem mutex?_unnumbered : entry.unnumbered.mutex? = entry.mutex?.map MutexDecl.unnumbered := by
  obtain ⟨line, record⟩ := entry
  cases record <;> rfl

theorem step?_unnumbered : entry.unnumbered.step? = entry.step?.map LoopStep.unnumbered := by
  obtain ⟨line, record⟩ := entry
  cases record <;> rfl

/-! ## What the classes declare -/

theorem classOf_of_mem_halves {d : Decl} (h : d ∈ entry.halves) :
    d.kind.tag.classOf = entry.record.classOf := by
  obtain ⟨line, record⟩ := entry
  cases record <;> simp [halves, halves?] at h <;> rcases h with rfl | rfl <;> rfl

theorem classOf_of_distance? (h : entry.distance?.isSome) : entry.record.classOf = .distances := by
  obtain ⟨line, record⟩ := entry
  cases record <;> first | rfl | cases h

theorem classOf_of_mutex? (h : entry.mutex?.isSome) : entry.record.classOf = .mutexes := by
  obtain ⟨line, record⟩ := entry
  cases record <;> first | rfl | cases h

theorem classOf_of_step? (h : entry.step?.isSome) : entry.record.classOf = .steps := by
  obtain ⟨line, record⟩ := entry
  cases record <;> first | rfl | cases h

end LineRecord

variable {records records' : List LineRecord} {c : Record.Class}

/-- The records of a class. -/
def ofClass (c : Record.Class) (records : List LineRecord) : List LineRecord :=
  records.filter (·.record.classOf = c)

/-- The declarations of a class are those of its records. -/
theorem filter_declsOf : (declsOf records).filter (·.kind.tag.classOf = c) =
    declsOf (ofClass c records) := by
  induction records with
  | nil => rfl
  | cons entry rest ih =>
    unfold ofClass at ih ⊢
    rw [declsOf_cons, List.filter_append, ih, List.filter_cons]
    by_cases hc : entry.record.classOf = c
    · rw [if_pos (decide_eq_true hc), declsOf_cons, List.filter_eq_self.2]
      intro d hd
      rw [LineRecord.classOf_of_mem_halves hd]
      exact decide_eq_true hc
    · rw [if_neg (by simpa using hc), List.filter_eq_nil_iff.2, List.nil_append]
      intro d hd
      rw [LineRecord.classOf_of_mem_halves hd]
      simpa using hc

/-- What only records of a class declare is declared by the records of the class. -/
theorem filterMap_ofClass {β : Type} {f : LineRecord → Option β}
    (h : ∀ entry, (f entry).isSome → entry.record.classOf = c) :
    (ofClass c records).filterMap f = records.filterMap f := by
  unfold ofClass
  rw [List.filterMap_filter]
  apply List.filterMap_congr
  intro entry _
  by_cases hc : entry.record.classOf = c
  · rw [if_pos (decide_eq_true hc)]
  · rw [if_neg (by simpa using hc)]
    exact (Option.not_isSome_iff_eq_none.1 (mt (h entry) hc)).symm

/-- The same records on other lines, in another order; but records of one class that are no sensors
keep their order. -/
structure Reordered (records records' : List LineRecord) : Prop where
  perm : (records.map LineRecord.unnumbered).Perm (records'.map LineRecord.unnumbered)
  ofClass_eq : ∀ c, c ≠ .sensors →
    ofClass c (records.map LineRecord.unnumbered) = ofClass c (records'.map LineRecord.unnumbered)

/-- The same records on other lines, in another order; but records of one class that are neither
sensors nor distances keep their order. -/
structure Rearranged (records records' : List LineRecord) : Prop where
  perm : (records.map LineRecord.unnumbered).Perm (records'.map LineRecord.unnumbered)
  ofClass_eq : ∀ c, c ≠ .sensors → c ≠ .distances →
    ofClass c (records.map LineRecord.unnumbered) = ofClass c (records'.map LineRecord.unnumbered)

theorem Reordered.rearranged (h : Reordered records records') : Rearranged records records' :=
  ⟨h.perm, fun c hc _ => h.ofClass_eq c hc⟩

theorem declsOf_unnumbered :
    declsOf (records.map LineRecord.unnumbered) = (declsOf records).map Decl.unnumbered := by
  unfold declsOf
  rw [List.flatMap_map, List.map_flatMap]
  simp only [LineRecord.halves_unnumbered]

theorem filterMap_unnumbered {β : Type} {f : LineRecord → Option β} {g : β → β}
    (h : ∀ entry : LineRecord, f entry.unnumbered = (f entry).map g) :
    (records.map LineRecord.unnumbered).filterMap f = (records.filterMap f).map g := by
  rw [List.filterMap_map, List.map_filterMap]
  exact List.filterMap_congr fun entry _ => h entry

/-- What only one class declares is declared in the same order if the records are. -/
theorem filterMap_eq_of_ofClass (h : ofClass c (records.map LineRecord.unnumbered) =
    ofClass c (records'.map LineRecord.unnumbered)) {β : Type}
    {f : LineRecord → Option β} {g : β → β}
    (hf : ∀ entry, (f entry).isSome → entry.record.classOf = c)
    (hg : ∀ entry : LineRecord, f entry.unnumbered = (f entry).map g) :
    (records.filterMap f).map g = (records'.filterMap f).map g := by
  rw [← filterMap_unnumbered hg, ← filterMap_unnumbered hg]
  have := congrArg (List.filterMap f) h
  rwa [filterMap_ofClass hf, filterMap_ofClass hf] at this

theorem Reordered.distances_eq (h : Reordered records records') :
    (records.filterMap LineRecord.distance?).map DistanceDecl.unnumbered =
      (records'.filterMap LineRecord.distance?).map DistanceDecl.unnumbered :=
  filterMap_eq_of_ofClass (h.ofClass_eq .distances (by decide))
    (fun _ => LineRecord.classOf_of_distance?) fun _ => LineRecord.distance?_unnumbered

namespace Rearranged

/-- The records declare the same nodes. -/
theorem decls_perm (h : Rearranged records records') :
    ((declsOf records).map Decl.unnumbered).Perm ((declsOf records').map Decl.unnumbered) := by
  rw [← declsOf_unnumbered, ← declsOf_unnumbered]
  exact h.perm.flatMap_right _

/-- Nodes of one class, sensors apart, are declared in the same order. -/
theorem filter_decls (h : Rearranged records records') (hc : c ≠ .sensors)
    (hc' : c ≠ .distances) :
    ((declsOf records).map Decl.unnumbered).filter (·.kind.tag.classOf = c) =
      ((declsOf records').map Decl.unnumbered).filter (·.kind.tag.classOf = c) := by
  rw [← declsOf_unnumbered, ← declsOf_unnumbered, filter_declsOf, filter_declsOf,
    h.ofClass_eq c hc hc']

/-- The records declare the same distances. -/
theorem distances_perm (h : Rearranged records records') :
    ((records.filterMap LineRecord.distance?).map DistanceDecl.unnumbered).Perm
      ((records'.filterMap LineRecord.distance?).map DistanceDecl.unnumbered) := by
  rw [← filterMap_unnumbered fun _ => LineRecord.distance?_unnumbered,
    ← filterMap_unnumbered fun _ => LineRecord.distance?_unnumbered]
  exact h.perm.filterMap _

theorem mutexes_eq (h : Rearranged records records') :
    (records.filterMap LineRecord.mutex?).map MutexDecl.unnumbered =
      (records'.filterMap LineRecord.mutex?).map MutexDecl.unnumbered :=
  filterMap_eq_of_ofClass (h.ofClass_eq .mutexes (by decide) (by decide))
    (fun _ => LineRecord.classOf_of_mutex?) fun _ => LineRecord.mutex?_unnumbered

theorem steps_eq (h : Rearranged records records') :
    (records.filterMap LineRecord.step?).map LoopStep.unnumbered =
      (records'.filterMap LineRecord.step?).map LoopStep.unnumbered :=
  filterMap_eq_of_ofClass (h.ofClass_eq .steps (by decide) (by decide))
    (fun _ => LineRecord.classOf_of_step?) fun _ => LineRecord.step?_unnumbered

end Rearranged

/-! ## Whether records are well described -/

section SameUpTo

variable {α : Type} {f : α → α} {l l' : List α}

/-- What does not look at lines is true of something in both lists, or in neither. -/
theorem exists_mem_iff_of_perm (h : (l.map f).Perm (l'.map f)) {P : α → Prop}
    (hP : ∀ a, P (f a) ↔ P a) : (∃ a ∈ l, P a) ↔ ∃ a ∈ l', P a := by
  have hmap : ∀ l : List α, (∃ a ∈ l, P a) ↔ ∃ b ∈ l.map f, P b := by
    intro l
    simp [hP]
  rw [hmap l, hmap l']
  simp only [h.mem_iff]

theorem forall_mem_iff_of_perm (h : (l.map f).Perm (l'.map f)) {P : α → Prop}
    (hP : ∀ a, P (f a) ↔ P a) : (∀ a ∈ l, P a) ↔ ∀ a ∈ l', P a := by
  have hmap : ∀ l : List α, (∀ a ∈ l, P a) ↔ ∀ b ∈ l.map f, P b := by
    intro l
    simp only [List.forall_mem_map, hP]
  rw [hmap l, hmap l']
  simp only [h.mem_iff]

end SameUpTo

section SameDecls

variable {decls decls' : List Decl} {a b : String}
  (h : (decls.map Decl.unnumbered).Perm (decls'.map Decl.unnumbered))

include h

theorem leads_iff_of_perm : Leads decls a b ↔ Leads decls' a b :=
  exists_mem_iff_of_perm h fun _ => Iff.rfl

theorem reverses_iff_of_perm : Reverses decls a b ↔ Reverses decls' a b :=
  exists_mem_iff_of_perm h fun _ => Iff.rfl

theorem names_perm : (decls.map Decl.name).Perm (decls'.map Decl.name) := by
  have := h.map Decl.name
  rwa [List.map_map, List.map_map] at this

theorem declared_iff_of_perm : Declared decls a ↔ Declared decls' a :=
  (names_perm h).mem_iff

theorem addresses_perm :
    (decls.filterMap (·.kind.address?)).Perm (decls'.filterMap (·.kind.address?)) := by
  have := h.filterMap (·.kind.address?)
  rwa [List.filterMap_map, List.filterMap_map] at this

theorem addressSpan_eq_of_perm : addressSpan decls = addressSpan decls' := by
  unfold addressSpan
  exact ((addresses_perm h).map _).foldr_eq 0

theorem distinct_of_perm (hd : Distinct decls) : Distinct decls' :=
  ⟨(names_perm h).nodup_iff.1 hd.names, (addresses_perm h).nodup_iff.1 hd.addresses⟩

theorem covers_iff_of_perm {x : DistanceDecl} : Covers decls x a b ↔ Covers decls' x a b := by
  unfold Covers
  simp only [reverses_iff_of_perm h]

theorem leadsBack_of_perm (hl : LeadsBack decls) : LeadsBack decls' := by
  intro a b a' b'
  simp only [← leads_iff_of_perm h, ← reverses_iff_of_perm h]
  exact hl a b a' b'

theorem closedRound_of_perm {names : List String} (hc : ClosedRound decls names) :
    ClosedRound decls' names where
  leads := fun p hp => (leads_iff_of_perm h).1 (hc.leads p hp)
  sensor := (exists_mem_iff_of_perm h fun _ => Iff.rfl).1 hc.sensor

end SameDecls

/-- The order of the records and their lines make no difference for whether they are well
described. -/
theorem Rearranged.wellDescribed {o : Options} (h : Rearranged records records')
    (hw : WellDescribed records o) : WellDescribed records' o := by
  have hd := h.decls_perm
  have hx := h.distances_perm
  have hm : ((records.filterMap LineRecord.mutex?).map MutexDecl.unnumbered).Perm
      ((records'.filterMap LineRecord.mutex?).map MutexDecl.unnumbered) := by
    rw [h.mutexes_eq]
  have hs : (records'.filterMap LineRecord.step?).map LoopStep.node =
      (records.filterMap LineRecord.step?).map LoopStep.node := by
    have := congrArg (List.map LoopStep.node) h.steps_eq
    rw [List.map_map, List.map_map] at this
    exact this.symm
  exact {
    distinct := distinct_of_perm hd hw.distinct
    address_le := (forall_mem_iff_of_perm hd fun _ => Iff.rfl).1 hw.address_le
    size_le := by
      have hcount := hd.countP_eq (·.kind.tag ≠ .sensor)
      rw [List.countP_map, List.countP_map] at hcount
      rw [← addressSpan_eq_of_perm hd]
      exact hcount ▸ hw.size_le
    successors_declared := by
      simp only [← declared_iff_of_perm hd]
      exact (forall_mem_iff_of_perm hd fun _ => Iff.rfl).1 hw.successors_declared
    distances_declared := by
      simp only [← declared_iff_of_perm hd]
      exact (forall_mem_iff_of_perm hx fun _ => Iff.rfl).1 hw.distances_declared
    distances_lead := by
      simp only [← leads_iff_of_perm hd]
      exact (forall_mem_iff_of_perm hx fun _ => Iff.rfl).1 hw.distances_lead
    reversible := leadsBack_of_perm hd hw.reversible
    covered := by
      intro ho
      obtain ⟨hforks, hcovers⟩ := hw.covered ho
      refine ⟨(forall_mem_iff_of_perm hd fun _ => Iff.rfl).1 hforks, fun a b hab => ?_⟩
      simp only [← covers_iff_of_perm hd]
      exact (exists_mem_iff_of_perm hx fun _ => Iff.rfl).1
        (hcovers a b ((leads_iff_of_perm hd).2 hab))
    mutexes_lead := by
      simp only [← leads_iff_of_perm hd]
      exact (forall_mem_iff_of_perm hm fun _ => Iff.rfl).1 hw.mutexes_lead
    loop := by
      rw [hs]
      exact hw.loop.imp_right (closedRound_of_perm hd) }

end TrackPlan
