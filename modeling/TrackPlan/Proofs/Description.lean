import Mathlib.Data.List.Rotate
import TrackPlan.Options
import TrackPlan.Registry

/-!
# What records declare

The nodes of a description are declared in pairs, so a record that declares nodes has two halves,
each the reverse of the other. Everything else that is said about a description here is said of the
names in its records, without positions, nodes or edges.
-/

namespace TrackPlan

/-- The tag of the reverse of a node. -/
def Tag.opposite : Tag → Tag
  | branch => merge
  | merge => branch
  | enter => exit
  | exit => enter
  | dummy => dummy
  | sensor => sensor
  | separator => separator

@[simp] theorem Tag.opposite_opposite (t : Tag) : t.opposite.opposite = t := by cases t <;> rfl

/-- The declarations of the forward and the backward half of a record. -/
def LineRecord.halves? (entry : LineRecord) : Option (Decl × Decl) :=
  let line := entry.line
  match entry.record with
  | .sensors f b => some (⟨f.name, b.name, .sensor f.address f.ahead, line⟩,
      ⟨b.name, f.name, .sensor b.address b.ahead, line⟩)
  | .separators f b => some (⟨f.name, b.name, .separator f.ahead, line⟩,
      ⟨b.name, f.name, .separator b.ahead, line⟩)
  | .switch branch number straight curved merge ahead =>
    some (⟨branch, merge, .branch number straight curved, line⟩,
      ⟨merge, branch, .merge number ahead, line⟩)
  | .terminal enter ahead exit => some (⟨enter, exit, .enter ahead, line⟩,
      ⟨exit, enter, .exit, line⟩)
  | .distance .. | .mutex .. | .calibration .. => none

/-- The distance that a record declares. -/
def LineRecord.distance? (entry : LineRecord) : Option DistanceDecl :=
  match entry.record with
  | .distance src dest millimeters => some ⟨src, dest, millimeters, entry.line⟩
  | _ => none

/-- The mutex group that a record declares. -/
def LineRecord.mutex? (entry : LineRecord) : Option MutexDecl :=
  match entry.record with
  | .mutex edges => some ⟨edges, entry.line⟩
  | _ => none

/-- The step of the calibration loop that a record declares. -/
def LineRecord.step? (entry : LineRecord) : Option LoopStep :=
  match entry.record with
  | .calibration node => some ⟨node, entry.line⟩
  | _ => none

theorem LineRecord.distance?_eq_some_iff {entry : LineRecord} {x : DistanceDecl} :
    entry.distance? = some x ↔ entry = ⟨x.line, .distance x.src x.dest x.millimeters⟩ := by
  obtain ⟨line, record⟩ := entry
  obtain ⟨src, dest, millimeters, line'⟩ := x
  cases record <;> simp [distance?]
  tauto

theorem LineRecord.mutex?_eq_some_iff {entry : LineRecord} {m : MutexDecl} :
    entry.mutex? = some m ↔ entry = ⟨m.line, .mutex m.edges⟩ := by
  obtain ⟨line, record⟩ := entry
  obtain ⟨edges, line'⟩ := m
  cases record <;> simp [mutex?, and_comm]

theorem LineRecord.step?_eq_some_iff {entry : LineRecord} {s : LoopStep} :
    entry.step? = some s ↔ entry = ⟨s.line, .calibration s.node⟩ := by
  obtain ⟨line, record⟩ := entry
  obtain ⟨node, line'⟩ := s
  cases record <;> simp [step?, and_comm]

theorem LineRecord.line_of_distance? {entry : LineRecord} {x : DistanceDecl}
    (h : entry.distance? = some x) : x.line = entry.line := by
  rw [LineRecord.distance?_eq_some_iff.1 h]

theorem LineRecord.line_of_mutex? {entry : LineRecord} {m : MutexDecl}
    (h : entry.mutex? = some m) : m.line = entry.line := by
  rw [LineRecord.mutex?_eq_some_iff.1 h]

/-- Two declarations that name each other as reverse, with tags that go together. -/
structure Decl.Opposed (d d' : Decl) : Prop where
  reverse_eq : d.reverse = d'.name
  reverse_eq' : d'.reverse = d.name
  tag_eq : d'.kind.tag = d.kind.tag.opposite

theorem Decl.Opposed.symm {d d' : Decl} (h : d.Opposed d') : d'.Opposed d :=
  ⟨h.reverse_eq', h.reverse_eq, by rw [h.tag_eq, Tag.opposite_opposite]⟩

/-- The halves of a record are each other's reverse. -/
theorem LineRecord.opposed_of_halves? {entry : LineRecord} {d d' : Decl}
    (h : entry.halves? = some (d, d')) : d.Opposed d' := by
  obtain ⟨line, record⟩ := entry
  cases record <;> cases h <;> exact ⟨rfl, rfl, rfl⟩

/-- The forward half is a sensor, a separator, a branch or an entry. -/
theorem LineRecord.tag_of_halves? {entry : LineRecord} {d d' : Decl}
    (h : entry.halves? = some (d, d')) :
    d.kind.tag ∈ [Tag.sensor, .separator, .branch, .enter] := by
  obtain ⟨line, record⟩ := entry
  cases record <;> cases h <;> simp [Kind.tag]

/-- The declarations of a record. -/
def LineRecord.halves (entry : LineRecord) : List Decl :=
  match entry.halves? with
  | some (d, d') => [d, d']
  | none => []

theorem LineRecord.line_of_mem_halves {entry : LineRecord} {d : Decl} (h : d ∈ entry.halves) :
    d.line = entry.line := by
  obtain ⟨line, record⟩ := entry
  cases record <;> simp only [halves, halves?, List.mem_cons, List.not_mem_nil, or_false] at h <;>
    rcases h with rfl | rfl <;> rfl

/-- The declarations of a list of records. -/
def declsOf (records : List LineRecord) : List Decl := records.flatMap LineRecord.halves

@[simp] theorem declsOf_nil : declsOf [] = [] := rfl

@[simp] theorem declsOf_cons (entry : LineRecord) (rest : List LineRecord) :
    declsOf (entry :: rest) = entry.halves ++ declsOf rest := rfl

theorem declsOf_append (records more : List LineRecord) :
    declsOf (records ++ more) = declsOf records ++ declsOf more := List.flatMap_append

/-- Every declaration of a list of records has its reverse there. -/
theorem exists_opposed {records : List LineRecord} {d : Decl} (h : d ∈ declsOf records) :
    ∃ d' ∈ declsOf records, d.Opposed d' := by
  obtain ⟨entry, hentry, hd⟩ := List.mem_flatMap.1 h
  have hmem : ∀ e ∈ entry.halves, e ∈ declsOf records := fun e he =>
    List.mem_flatMap.2 ⟨entry, hentry, he⟩
  unfold LineRecord.halves at hd hmem
  cases hh : entry.halves? with
  | none => simp [hh] at hd
  | some halves =>
    obtain ⟨e, e'⟩ := halves
    have ho := LineRecord.opposed_of_halves? hh
    rw [hh] at hd hmem
    simp only [List.mem_cons, List.not_mem_nil, or_false] at hd
    rcases hd with rfl | rfl
    · exact ⟨e', hmem e' (by simp), ho⟩
    · exact ⟨e, hmem e (by simp), ho.symm⟩

/-- A record that declares nodes declares nothing else. -/
theorem LineRecord.pending_of_halves? {entry : LineRecord} {halves : Decl × Decl}
    (h : entry.halves? = some halves) :
    entry.distance? = none ∧ entry.mutex? = none ∧ entry.step? = none := by
  obtain ⟨line, record⟩ := entry
  cases record <;> cases h <;> exact ⟨rfl, rfl, rfl⟩

/-- Names and addresses are given once. -/
structure Distinct (decls : List Decl) : Prop where
  names : (decls.map Decl.name).Nodup
  addresses : (decls.filterMap (·.kind.address?)).Nodup

theorem Distinct.sublist {decls decls' : List Decl} (h : Distinct decls)
    (hs : decls'.Sublist decls) : Distinct decls' :=
  ⟨h.names.sublist (hs.map _), h.addresses.sublist (hs.filterMap _)⟩

theorem Kind.address?_isSome_iff {ρ : Type} (k : Kind ρ) :
    k.address?.isSome ↔ k.tag = .sensor := by
  cases k <;> simp [Kind.address?, Kind.tag]

/-! ## What names have to do with each other -/

/-- A node is declared under the name. -/
def Declared (decls : List Decl) (a : String) : Prop := a ∈ decls.map Decl.name

/-- The second name is a successor of the first. -/
def Leads (decls : List Decl) (a b : String) : Prop :=
  ∃ d ∈ decls, d.name = a ∧ b ∈ d.kind.successors

/-- The second name is the reverse of the first. -/
def Reverses (decls : List Decl) (a a' : String) : Prop :=
  ∃ d ∈ decls, d.name = a ∧ d.reverse = a'

/-- A distance speaks for the pair of nodes it names, and for their reverses in the opposite order;
between two nodes that are each other's reverse it speaks for the way back, too. -/
def Covers (decls : List Decl) (x : DistanceDecl) (a b : String) : Prop :=
  (x.src = a ∧ x.dest = b) ∨
    (∃ a' b', Reverses decls a a' ∧ Reverses decls b b' ∧ x.src = b' ∧ x.dest = a') ∨
      (Reverses decls a b ∧ x.src = b ∧ x.dest = a)

/-- What leads from one node to another leads back between their reverses. -/
def LeadsBack (decls : List Decl) : Prop := ∀ a b a' b', Leads decls a b → Reverses decls a a' →
  Reverses decls b b' → Leads decls b' a'

/-- No switch leads to one node both ways. -/
def Forks (decls : List Decl) : Prop := ∀ d ∈ decls, ∀ number straight curved,
  d.kind = .branch number straight curved → straight ≠ curved

/-- The places for sensors: the highest address and one, or none without sensors. -/
def addressSpan (decls : List Decl) : Nat :=
  ((decls.filterMap (·.kind.address?)).map fun a => a.toNat + 1).foldr max 0

/-- A round without a last name that only repeats the first. -/
def openRound (names : List String) : List String :=
  if 1 < names.length ∧ names.head? = names.getLast? then names.dropLast else names

/-- Each name of a round leads to the next one, the last to the first, and one is a sensor's. -/
structure ClosedRound (decls : List Decl) (names : List String) : Prop where
  leads : ∀ p ∈ names.zip (names.rotate 1), Leads decls p.1 p.2
  sensor : ∃ d ∈ decls, d.kind.tag = .sensor ∧ d.name ∈ names

/-- What makes a list of records a track, in terms of the names in it alone. -/
structure WellDescribed (records : List LineRecord) (o : Options) : Prop where
  distinct : Distinct (declsOf records)
  address_le : ∀ d ∈ declsOf records, ∀ a, d.kind.address? = some a →
    ∀ limit, o.maxSensorAddress = some limit → a ≤ limit
  size_le : addressSpan (declsOf records) +
    (declsOf records).countP (·.kind.tag ≠ .sensor) ≤ o.nodeLimit
  successors_declared : ∀ d ∈ declsOf records, ∀ s ∈ d.kind.successors,
    Declared (declsOf records) s
  distances_declared : ∀ x ∈ records.filterMap LineRecord.distance?,
    Declared (declsOf records) x.src ∧ Declared (declsOf records) x.dest
  distances_lead : ∀ x ∈ records.filterMap LineRecord.distance?,
    Leads (declsOf records) x.src x.dest
  reversible : LeadsBack (declsOf records)
  /-- Where distances are required, every edge has one of its own that speaks for it. -/
  covered : o.requireDistances = true → Forks (declsOf records) ∧
    ∀ a b, Leads (declsOf records) a b →
      ∃ x ∈ records.filterMap LineRecord.distance?, Covers (declsOf records) x a b
  mutexes_lead : ∀ m ∈ records.filterMap LineRecord.mutex?, ∀ p ∈ m.edges,
    Leads (declsOf records) p.1 p.2
  /-- The calibration records, if there are any, go around a loop. -/
  loop : openRound ((records.filterMap LineRecord.step?).map LoopStep.node) = [] ∨
    ClosedRound (declsOf records)
      (openRound ((records.filterMap LineRecord.step?).map LoopStep.node))

end TrackPlan
