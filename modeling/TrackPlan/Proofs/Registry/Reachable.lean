import Mathlib.Data.List.Basic
import TrackPlan.Proofs.Description
import TrackPlan.Proofs.Lists

/-!
# Registries that calls can reach

A registry grows by records and by single declarations, and some of the calls fail. `Valid` says
what all of them keep: names are unique, addresses ascend and belong to their sensors, and the
listed switches, ends and separators are complete pairs.

1. `declareNode_eq_ok` says what declaring one node does; `add_pair` reads every record that
   declares nodes as two such declarations and `listPair`.
2. `Valid.grow` and `Valid.listPair` are the steps, `Valid.add` the record.
3. `Reachable.valid` is the run.
-/

namespace TrackPlan

/-- The list holds the positions of complete pairs in ascending order. The halves of a pair are
neighbours, each is the reverse of the other, and the forward one has the given tag. -/
def Pairs (decls : List Decl) (tag : Tag) (list : List Nat) : Prop :=
  ∃ firsts : List Nat, list = firsts.flatMap (fun i => [i, i + 1]) ∧
    firsts.Pairwise (fun i j => i + 1 < j) ∧
    ∀ i ∈ firsts, ∃ d d', decls[i]? = some d ∧ decls[i + 1]? = some d' ∧ d.Opposed d' ∧
      d.kind.tag = tag

namespace Pairs

variable {decls : List Decl} {tag : Tag} {list : List Nat}

theorem nil : Pairs decls tag [] := ⟨[], rfl, .nil, by simp⟩

/-- A listed position has a declaration with one of the two tags of the pair. -/
theorem tag_of_mem (h : Pairs decls tag list) {i : Nat} (hi : i ∈ list) :
    ∃ d, decls[i]? = some d ∧ (d.kind.tag = tag ∨ d.kind.tag = tag.opposite) := by
  obtain ⟨firsts, rfl, -, hp⟩ := h
  obtain ⟨j, hj, hij⟩ := List.mem_flatMap.1 hi
  obtain ⟨d, d', hd, hd', ho, ht⟩ := hp j hj
  simp only [List.mem_cons, List.not_mem_nil, or_false] at hij
  rcases hij with rfl | rfl
  · exact ⟨d, hd, Or.inl ht⟩
  · exact ⟨d', hd', Or.inr (by rw [ho.tag_eq, ht])⟩

theorem lt_of_mem (h : Pairs decls tag list) {i : Nat} (hi : i ∈ list) : i < decls.length := by
  obtain ⟨d, hd, -⟩ := h.tag_of_mem hi
  exact (List.getElem?_eq_some_iff.1 hd).1

theorem nodup (h : Pairs decls tag list) : list.Nodup := by
  obtain ⟨firsts, rfl, ha, -⟩ := h
  unfold List.Nodup
  rw [List.pairwise_flatMap]
  refine ⟨fun i _ => by simp, ha.imp fun {i j} hij => ?_⟩
  intro x hx y hy
  simp only [List.mem_cons, List.not_mem_nil, or_false] at hx hy
  omega

/-- More declarations do not spoil the pairs. -/
theorem append (h : Pairs decls tag list) (more : List Decl) : Pairs (decls ++ more) tag list := by
  obtain ⟨firsts, rfl, ha, hp⟩ := h
  refine ⟨firsts, rfl, ha, fun i hi => ?_⟩
  obtain ⟨d, d', hd, hd', ho⟩ := hp i hi
  exact ⟨d, d', List.getElem?_append_left (List.getElem?_eq_some_iff.1 hd).1 ▸ hd,
    List.getElem?_append_left (List.getElem?_eq_some_iff.1 hd').1 ▸ hd', ho⟩

/-- A pair behind all listed ones can be listed too. -/
theorem push (h : Pairs decls tag list) {i : Nat} {d d' : Decl} (hi : ∀ j ∈ list, j < i)
    (hd : decls[i]? = some d) (hd' : decls[i + 1]? = some d') (ho : d.Opposed d')
    (ht : d.kind.tag = tag) : Pairs decls tag (list ++ [i, i + 1]) := by
  obtain ⟨firsts, rfl, ha, hp⟩ := h
  refine ⟨firsts ++ [i], by simp, ?_, fun j hj => ?_⟩
  · refine List.pairwise_append.2 ⟨ha, List.pairwise_singleton .., fun j hj k hk => ?_⟩
    rw [List.mem_singleton.1 hk]
    exact hi (j + 1) (List.mem_flatMap.2 ⟨j, hj, by simp⟩)
  · rcases List.mem_append.1 hj with hj | hj
    · exact hp j hj
    · rw [List.mem_singleton.1 hj]
      exact ⟨d, d', hd, hd', ho, ht⟩

end Pairs

namespace Registry

variable {r r' : Registry} {d d' : Decl}

/-! ## Declaring one node -/

/-- The index of names agrees with the declarations. -/
theorem lookup_names (r : Registry) (name : String) :
    r.names.lookup name = r.decls.findIdx? (·.name == name) := by
  rw [r.names_eq, lookup_zipIdx, List.findIdx?_map]
  exact Option.map_id_apply

theorem decl?_eq_find? (r : Registry) (name : String) :
    r.decl? name = r.decls.find? (·.name == name) := by
  rw [List.find?_eq_bind_findIdx?_getElem?, ← lookup_names]
  unfold decl?
  cases r.names.lookup name <;> rfl

theorem lookup_names_isSome_iff {name : String} :
    (r.names.lookup name).isSome ↔ name ∈ r.decls.map Decl.name := by
  simp [lookup_names]

@[simp] theorem decls_push : (r.push d).decls = r.decls ++ [d] := rfl

@[simp] theorem sensors_push : (r.push d).sensors = r.sensors := rfl

theorem declare_eq_ok :
    r.declare d = .ok r' ↔ d.name ∉ r.decls.map Decl.name ∧ r' = r.push d := by
  unfold declare
  by_cases h : d.name ∈ r.decls.map Decl.name
  · rw [if_pos (lookup_names_isSome_iff.2 h)]
    simp [h]
  · rw [if_neg (mt lookup_names_isSome_iff.1 h), Except.ok.injEq, eq_comm]
    simp only [h, not_false_eq_true, true_and]

/-- Declares a node, at its address if it is a sensor. -/
def declareNode (r : Registry) (d : Decl) : Except CompileError Registry :=
  match d.kind with
  | .sensor address ahead => r.declareSensor ⟨d.name, address, ahead⟩ d.reverse d.line
  | _ => r.declare d

/-- The registry with one more node, which takes its address if it is a sensor. -/
def grow (r : Registry) (d : Decl) : Registry :=
  { r.push d with
    sensors := match d.kind.address? with
      | some address => insertAddress address r.decls.length r.sensors
      | none => r.sensors }

theorem grow_of_address?_eq_none (h : d.kind.address? = none) : r.grow d = r.push d := by
  unfold grow
  rw [h]
  rfl

/-- Whether name and address of a node are still free. -/
def Admits (r : Registry) (d : Decl) : Prop :=
  d.name ∉ r.decls.map Decl.name ∧ ∀ a, d.kind.address? = some a → a ∉ r.sensors.map Prod.fst

theorem holder?_eq_none_iff {address : UInt32} :
    r.holder? address = none ↔ address ∉ r.sensors.map Prod.fst := by
  unfold holder?
  cases h : r.sensors.lookup address with
  | none =>
    rw [List.lookup_eq_none_iff] at h
    simp only [List.mem_map, true_iff]
    rintro ⟨s, hs, rfl⟩
    simpa using h s hs
  | some i =>
    obtain ⟨_, _, hl, -⟩ := List.lookup_eq_some_iff.1 h
    simp [hl]

theorem declareSensor_eq_ok {half : SensorHalf} {reverse : String} {line : Nat} :
    r.declareSensor half reverse line = .ok r' ↔
      r.Admits ⟨half.name, reverse, .sensor half.address half.ahead, line⟩ ∧
        r' = r.grow ⟨half.name, reverse, .sensor half.address half.ahead, line⟩ := by
  unfold declareSensor Admits grow
  simp only [Kind.address?, Option.some.injEq, forall_eq']
  cases hh : r.holder? half.address with
  | some existing =>
    have ha : half.address ∈ r.sensors.map Prod.fst := by
      by_contra ha
      rw [holder?_eq_none_iff.2 ha] at hh
      cases hh
    simp [ha]
  | none =>
    have ha := holder?_eq_none_iff.1 hh
    cases hd : r.declare ⟨half.name, reverse, .sensor half.address half.ahead, line⟩ with
    | error e =>
      have hn : half.name ∈ r.decls.map Decl.name := by
        by_contra hn
        rw [declare_eq_ok.2 ⟨hn, rfl⟩] at hd
        cases hd
      simp [hn, bind, Except.bind]
    | ok r₁ =>
      obtain ⟨hn, rfl⟩ := declare_eq_ok.1 hd
      simp only [bind, Except.bind, pure, Except.pure, Except.ok.injEq, hn, ha, not_false_eq_true,
        and_self, true_and, eq_comm, sensors_push]

/-- What declaring one node does. -/
theorem declareNode_eq_ok : r.declareNode d = .ok r' ↔ r.Admits d ∧ r' = r.grow d := by
  obtain ⟨name, reverse, kind, line⟩ := d
  cases kind
  case sensor address ahead => exact declareSensor_eq_ok
  all_goals
    rw [grow_of_address?_eq_none rfl]
    exact declare_eq_ok.trans (by simp [Admits, Kind.address?])

@[simp] theorem decls_grow : (r.grow d).decls = r.decls ++ [d] := rfl

theorem mem_insertAddress {address : UInt32} {index : Nat} {s : UInt32 × Nat}
    {sensors : List (UInt32 × Nat)} :
    s ∈ insertAddress address index sensors ↔ s = (address, index) ∨ s ∈ sensors := by
  induction sensors with
  | nil => simp [insertAddress]
  | cons t rest ih =>
    unfold insertAddress
    split
    · simp
    · simp only [List.mem_cons, ih]
      exact or_left_comm

/-- A new address keeps the list ascending. -/
theorem pairwise_insertAddress {address : UInt32} {index : Nat} {sensors : List (UInt32 × Nat)}
    (h : sensors.Pairwise fun s t => s.1 < t.1) (hn : address ∉ sensors.map Prod.fst) :
    (insertAddress address index sensors).Pairwise fun s t => s.1 < t.1 := by
  induction sensors with
  | nil => simp [insertAddress]
  | cons t rest ih =>
    rw [List.pairwise_cons] at h
    rw [List.map_cons, List.mem_cons, not_or] at hn
    unfold insertAddress
    split
    · next hlt =>
      refine List.pairwise_cons.2 ⟨fun s hs => ?_, List.pairwise_cons.2 h⟩
      rcases List.mem_cons.1 hs with rfl | hs
      · exact hlt
      · exact UInt32.lt_trans hlt (h.1 s hs)
    · next hle =>
      refine List.pairwise_cons.2 ⟨fun s hs => ?_, ih h.2 hn.2⟩
      rcases mem_insertAddress.1 hs with rfl | hs
      · exact UInt32.lt_of_le_of_ne (UInt32.not_lt.1 hle) (Ne.symm hn.1)
      · exact h.1 s hs

/-- A sensor takes its address, any other node takes none. -/
theorem mem_sensors_grow {s : UInt32 × Nat} : s ∈ (r.grow d).sensors ↔
    s ∈ r.sensors ∨ d.kind.address? = some s.1 ∧ s.2 = r.decls.length := by
  unfold grow
  cases d.kind.address? with
  | none => simp
  | some a => simp [mem_insertAddress, Prod.ext_iff, or_comm, eq_comm]

/-! ## Adding a record -/

/-- Lists the pair whose forward half has the given tag and position. -/
def listPair (r : Registry) (tag : Tag) (i : Nat) : Registry :=
  match tag with
  | .branch => { r with switches := r.switches ++ [i, i + 1] }
  | .enter => { r with terminals := r.terminals ++ [i, i + 1] }
  | .separator => { r with separators := r.separators ++ [i, i + 1] }
  | _ => r

@[simp] theorem decls_listPair (r : Registry) (tag : Tag) (i : Nat) :
    (r.listPair tag i).decls = r.decls := by
  cases tag <;> rfl

@[simp] theorem sensors_listPair (r : Registry) (tag : Tag) (i : Nat) :
    (r.listPair tag i).sensors = r.sensors := by
  cases tag <;> rfl

/-- The registry after a record that declares no node. -/
def note (r : Registry) (entry : LineRecord) : Registry :=
  { r with
    distances := r.distances ++ entry.distance?.toList
    mutexes := r.mutexes ++ entry.mutex?.toList
    loop := r.loop ++ entry.step?.toList }

theorem add_pair {entry : LineRecord} (h : entry.halves? = some (d, d')) :
    r.add entry = r.declarePair (·.declareNode d) (·.declareNode d')
      (·.listPair d.kind.tag r.decls.length) := by
  obtain ⟨line, record⟩ := entry
  cases record <;> cases h <;> rfl

theorem add_note {entry : LineRecord} (h : entry.halves? = none) :
    r.add entry = (r.note entry, .ok ()) := by
  obtain ⟨line, record⟩ := entry
  cases record <;> cases h <;>
    simp [add, note, LineRecord.distance?, LineRecord.mutex?, LineRecord.step?]

/-- A record that declares nodes fails at its forward half, and changes nothing; or it fails at its
backward half, and leaves the forward half declared; or it is taken. -/
theorem add_cases {entry : LineRecord} (h : entry.halves? = some (d, d')) :
    (¬ r.Admits d ∧ ∃ e, r.add entry = (r, .error e)) ∨
    (r.Admits d ∧ ¬ (r.grow d).Admits d' ∧ ∃ e, r.add entry = (r.grow d, .error e)) ∨
    (r.Admits d ∧ (r.grow d).Admits d' ∧
      r.add entry = (((r.grow d).grow d').listPair d.kind.tag r.decls.length, .ok ())) := by
  rw [add_pair h]
  unfold declarePair
  dsimp only
  cases h₁ : r.declareNode d with
  | error e =>
    refine Or.inl ⟨fun ha => ?_, e, rfl⟩
    rw [declareNode_eq_ok.2 ⟨ha, rfl⟩] at h₁
    cases h₁
  | ok r₁ =>
    obtain ⟨ha, rfl⟩ := declareNode_eq_ok.1 h₁
    cases h₂ : (r.grow d).declareNode d' with
    | error e =>
      refine Or.inr (Or.inl ⟨ha, fun ha' => ?_, e, by simp only [h₂]⟩)
      rw [declareNode_eq_ok.2 ⟨ha', rfl⟩] at h₂
      cases h₂
    | ok r₂ =>
      obtain ⟨ha', rfl⟩ := declareNode_eq_ok.1 h₂
      exact Or.inr (Or.inr ⟨ha, ha', by simp only [h₂]⟩)

/-! ## What every call keeps -/

/-- What holds of a registry whatever was declared in it. -/
structure Valid (r : Registry) : Prop where
  names_nodup : (r.decls.map Decl.name).Nodup
  addresses_ascending : r.sensors.Pairwise fun s t => s.1 < t.1
  /-- An address belongs to the sensor that was declared with it. -/
  sensor_decl : ∀ s ∈ r.sensors, ∃ d, r.decls[s.2]? = some d ∧ d.kind.address? = some s.1
  switches : Pairs r.decls .branch r.switches
  terminals : Pairs r.decls .enter r.terminals
  separators : Pairs r.decls .separator r.separators

theorem Valid.empty : empty.Valid :=
  ⟨.nil, .nil, fun _ h => absurd h List.not_mem_nil, .nil, .nil, .nil⟩

/-- One more declaration under a free name, with at most its own address among the sensors. -/
theorem Valid.extend (hv : r.Valid) (hn : d.name ∉ r.decls.map Decl.name)
    {sensors : List (UInt32 × Nat)} (hasc : sensors.Pairwise fun s t => s.1 < t.1)
    (hmem : ∀ s ∈ sensors,
      s ∈ r.sensors ∨ d.kind.address? = some s.1 ∧ s.2 = r.decls.length) :
    Valid { r.push d with sensors := sensors } where
  names_nodup := by
    rw [decls_push, List.map_append, List.nodup_append]
    refine ⟨hv.names_nodup, by simp, ?_⟩
    rintro name hname _ hd rfl
    rw [List.map_singleton, List.mem_singleton] at hd
    exact hn (hd ▸ hname)
  addresses_ascending := hasc
  sensor_decl := by
    intro s hs
    rcases hmem s hs with hs | ⟨had, hlen⟩
    · obtain ⟨d', hd', had'⟩ := hv.sensor_decl s hs
      exact ⟨d', List.getElem?_append_left (List.getElem?_eq_some_iff.1 hd').1 ▸ hd', had'⟩
    · exact ⟨d, by rw [hlen, decls_push, List.getElem?_concat_length], had⟩
  switches := hv.switches.append _
  terminals := hv.terminals.append _
  separators := hv.separators.append _

theorem Valid.grow (hv : r.Valid) (ha : r.Admits d) : (r.grow d).Valid := by
  refine hv.extend ha.1 ?_ fun s hs => mem_sensors_grow.1 hs
  cases had : d.kind.address? with
  | none => exact hv.addresses_ascending
  | some a => exact pairwise_insertAddress hv.addresses_ascending (ha.2 a had)

/-- A single declaration takes no address, not even that of a sensor. -/
theorem Valid.declare (hv : r.Valid) (h : r.declare d = .ok r') : r'.Valid := by
  obtain ⟨hn, rfl⟩ := declare_eq_ok.1 h
  exact hv.extend hn hv.addresses_ascending fun s hs => Or.inl hs

/-- A pair that stands behind everything listed may be listed. -/
theorem Valid.listPair (hv : r.Valid) {i : Nat} {tag : Tag}
    (hsw : ∀ j ∈ r.switches, j < i) (ht : ∀ j ∈ r.terminals, j < i)
    (hse : ∀ j ∈ r.separators, j < i) (hd : r.decls[i]? = some d)
    (hd' : r.decls[i + 1]? = some d') (ho : d.Opposed d') (htag : d.kind.tag = tag) :
    (r.listPair tag i).Valid := by
  cases tag with
  | branch => exact { hv with switches := hv.switches.push hsw hd hd' ho htag }
  | enter => exact { hv with terminals := hv.terminals.push ht hd hd' ho htag }
  | separator => exact { hv with separators := hv.separators.push hse hd hd' ho htag }
  | dummy | sensor | merge | exit => exact hv

/-- Both halves of a record, declared and listed. -/
theorem Valid.pair (hv : r.Valid) (ha : r.Admits d) (ha' : (r.grow d).Admits d')
    (ho : d.Opposed d') : (((r.grow d).grow d').listPair d.kind.tag r.decls.length).Valid := by
  have hd : ((r.grow d).grow d').decls[r.decls.length]? = some d := by simp
  have hd' : ((r.grow d).grow d').decls[r.decls.length + 1]? = some d' := by simp
  exact ((hv.grow ha).grow ha').listPair (fun _ => hv.switches.lt_of_mem)
    (fun _ => hv.terminals.lt_of_mem) (fun _ => hv.separators.lt_of_mem) hd hd' ho rfl

theorem Valid.note (hv : r.Valid) (entry : LineRecord) : (r.note entry).Valid := { hv with }

/-- The step: a record keeps the registry valid, also when it fails. -/
theorem Valid.add (hv : r.Valid) (entry : LineRecord) : (r.add entry).1.Valid := by
  cases h : entry.halves? with
  | none =>
    rw [add_note h]
    exact hv.note entry
  | some halves =>
    obtain ⟨d, d'⟩ := halves
    rcases add_cases (r := r) h with ⟨-, e, he⟩ | ⟨ha, -, e, he⟩ | ⟨ha, ha', he⟩
    · rw [he]
      exact hv
    · rw [he]
      exact hv.grow ha
    · rw [he]
      exact hv.pair ha ha' (LineRecord.opposed_of_halves? h)

/-- The registries that calls make of the empty one: adding records, whether they are taken in full
or not, and declaring nodes by themselves. A call to declare a node that fails changes nothing. -/
inductive Reachable : Registry → Prop
  | empty : Reachable empty
  | add {r : Registry} (h : Reachable r) (entry : LineRecord) : Reachable (r.add entry).1
  | declare {r r' : Registry} {d : Decl} (h : Reachable r) (hd : r.declare d = .ok r') :
    Reachable r'

/-- The run: every reachable registry is valid. -/
theorem Reachable.valid (h : Reachable r) : r.Valid := by
  induction h with
  | empty => exact Valid.empty
  | add _ entry ih => exact ih.add entry
  | declare _ hd ih => exact ih.declare hd

theorem reachable_addAll {records : List LineRecord} (hr : Reachable r)
    (h : r.addAll records = .ok r') : Reachable r' := by
  induction records generalizing r with
  | nil =>
    cases h
    exact hr
  | cons entry rest ih =>
    have hadd := hr.add entry
    unfold addAll at h
    split at h
    · next r₁ he =>
      rw [he] at hadd
      exact ih hadd h
    · cases h

/-- The registry of a list of records is reachable. -/
theorem reachable_ofRecords {records : List LineRecord} (h : ofRecords records = .ok r) :
    Reachable r := reachable_addAll .empty h

end Registry

end TrackPlan
