import Mathlib.Data.List.Pairwise
import Mathlib.Data.List.Sort
import TrackPlan.Proofs.Reordering.Records

/-!
# The layout, told from the declarations

A registry keeps lists of positions from which it makes the layout. Where every declaration has a
place, the layout is told by the declarations alone: sensors stand at their addresses, and behind
them the other nodes by class, in the order in which they are declared (`Holds.placed_eq`). So it is
the same for rearranged records (`planned_eq`).
-/

namespace TrackPlan

/-! ## Positions as parts of a list -/

section Positions

variable {α : Type} {l : List α} {p : α → Bool}

theorem map_filter_zipIdx : ((l.zipIdx.filter (p ·.1)).map Prod.snd).map (l[·]?) =
    (l.filter p).map some := by
  have hfst : (l.zipIdx.filter (p ·.1)).map Prod.fst = l.filter p := by
    conv_rhs => rw [← List.zipIdx_map_fst 0 l, List.filter_map]
    rfl
  rw [← hfst, List.map_map, List.map_map]
  apply List.map_congr_left
  intro x hx
  exact List.mem_zipIdx_iff_getElem?.1 (List.mem_of_mem_filter hx)

/-- Ascending positions of the elements with a property give these elements in their order. -/
theorem map_getElem?_of_ascending {is : List Nat} (hasc : is.Pairwise (· < ·))
    (hmem : ∀ i, i ∈ is ↔ ∃ a, l[i]? = some a ∧ p a = true) :
    is.map (l[·]?) = (l.filter p).map some := by
  have heq : is = (l.zipIdx.filter (p ·.1)).map Prod.snd := by
    refine hasc.eq_of_mem_iff ?_ fun i => ?_
    · have hall : (l.zipIdx.map Prod.snd).Pairwise (· < ·) := by
        rw [List.zipIdx_map_snd]
        exact List.pairwise_lt_range'
      exact hall.sublist (List.filter_sublist.map _)
    · rw [hmem, List.mem_map]
      simp [List.mem_zipIdx_iff_getElem?]
  rw [heq, map_filter_zipIdx]

end Positions

/-- An element that is found by a key is found in any order, if no key is given twice. -/
theorem find?_eq_of_perm {α : Type} {l l' : List α} {p : α → Bool} (h : l.Perm l')
    (hone : ∀ a ∈ l, ∀ b ∈ l, p a = true → p b = true → a = b) : l.find? p = l'.find? p := by
  have hone' : ∀ a ∈ l', ∀ b ∈ l', p a = true → p b = true → a = b := fun a ha b hb =>
    hone a (h.mem_iff.2 ha) b (h.mem_iff.2 hb)
  have hiff : ∀ {l : List α}, (∀ a ∈ l, ∀ b ∈ l, p a = true → p b = true → a = b) → ∀ a,
      l.find? p = some a ↔ a ∈ l ∧ p a = true := by
    intro l hone a
    refine ⟨fun ha => ⟨List.mem_of_find?_eq_some ha, List.find?_some ha⟩, fun ⟨ha, hpa⟩ => ?_⟩
    obtain ⟨b, hb⟩ := Option.isSome_iff_exists.1 (List.find?_isSome.2 ⟨a, ha, hpa⟩)
    rw [hb, hone b (List.mem_of_find?_eq_some hb) a ha (List.find?_some hb) hpa]
  ext a
  rw [hiff hone, hiff hone', h.mem_iff]

/-! ## The plan of the declarations -/

/-- The sensor of an address. -/
def sensorAt? (decls : List Decl) (a : UInt32) : Option Decl :=
  decls.find? (·.kind.address? = some a)

/-- The declarations that are no sensors, class by class. -/
def listedDecls (decls : List Decl) : List Decl :=
  [Record.Class.switches, .terminals, .separators].flatMap fun c =>
    decls.filter (·.kind.tag.classOf = c)

/-- The layout of a list of declarations. -/
def planned (decls : List Decl) : List (Option Decl) :=
  (List.range (addressSpan decls)).map (fun p => sensorAt? decls (UInt32.ofNat p)) ++
    (listedDecls decls).map some

namespace Registry

variable {r : Registry} {records : List LineRecord} {i : Nat}

/-- The sensor at an address, told from the declarations. -/
theorem Valid.sensorAt?_eq (hv : r.Valid) (ha : r.Addressed) (a : UInt32) :
    (r.sensors.lookup a).bind (r.decls[·]?) = sensorAt? r.decls a := by
  unfold sensorAt?
  cases hl : r.sensors.lookup a with
  | none =>
    rw [Option.bind_none, eq_comm, List.find?_eq_none]
    intro d hd had
    obtain ⟨i, hi⟩ := List.getElem?_of_mem hd
    have := ha i d a hi (by simpa using had)
    rw [← hv.lookup_sensors, hl] at this
    cases this
  | some i =>
    obtain ⟨d, hd, had⟩ := hv.sensor_decl _ (hv.lookup_sensors.1 hl)
    rw [Option.bind_some, hd]
    obtain ⟨e, he⟩ := Option.isSome_iff_exists.1
      (List.find?_isSome (p := (·.kind.address? = some a)).2
        ⟨d, List.mem_of_getElem? hd, by simpa using had⟩)
    obtain ⟨j, hj⟩ := List.getElem?_of_mem (List.mem_of_find?_eq_some he)
    have hja := ha j e a hj (by simpa using List.find?_some he)
    rw [he, ← hj, hv.sensors_functional hja (hv.lookup_sensors.1 hl), hd]

end Registry

/-- Listed pairs ascend. -/
theorem Pairs.ascending {decls : List Decl} {tag : Tag} {list : List Nat}
    (h : Pairs decls tag list) : list.Pairwise (· < ·) := by
  obtain ⟨firsts, rfl, ha, -⟩ := h
  rw [List.pairwise_flatMap]
  refine ⟨fun i _ => by simp, ha.imp fun {i j} hij => ?_⟩
  intro x hx y hy
  simp only [List.mem_cons, List.not_mem_nil, or_false] at hx hy
  omega

/-- Listed pairs are of the class of the forward half. -/
theorem Pairs.classOf_of_mem {decls : List Decl} {tag : Tag} {list : List Nat} {i : Nat}
    (h : Pairs decls tag list) (hi : i ∈ list) :
    ∃ d, decls[i]? = some d ∧ d.kind.tag.classOf = tag.classOf := by
  obtain ⟨d, hd, ht | ht⟩ := h.tag_of_mem hi
  · exact ⟨d, hd, by rw [ht]⟩
  · exact ⟨d, hd, by rw [ht, Tag.classOf_opposite]⟩

namespace Registry

variable {r : Registry} {records : List LineRecord} {i : Nat} {c : Record.Class}

/-- The positions that are listed for a class. -/
def classList (r : Registry) : Record.Class → List Nat
  | .switches => r.switches
  | .terminals => r.terminals
  | .separators => r.separators
  | .sensors | .distances | .mutexes | .steps => []

theorem listed_eq_flatMap :
    r.listed = [Record.Class.switches, .terminals, .separators].flatMap r.classList := by
  simp [listed, classList]

theorem exists_mem_classList (hi : i ∈ r.listed) : ∃ c, i ∈ r.classList c := by
  rw [listed_eq_flatMap, List.mem_flatMap] at hi
  obtain ⟨c, -, hc⟩ := hi
  exact ⟨c, hc⟩

theorem Valid.ascending_classList (hv : r.Valid) : (r.classList c).Pairwise (· < ·) := by
  cases c with
  | switches => exact hv.switches.ascending
  | terminals => exact hv.terminals.ascending
  | separators => exact hv.separators.ascending
  | sensors | distances | mutexes | steps => exact List.Pairwise.nil

theorem Valid.classOf_of_mem (hv : r.Valid) (hi : i ∈ r.classList c) :
    ∃ d, r.decls[i]? = some d ∧ d.kind.tag.classOf = c := by
  cases c with
  | switches => exact hv.switches.classOf_of_mem hi
  | terminals => exact hv.terminals.classOf_of_mem hi
  | separators => exact hv.separators.classOf_of_mem hi
  | sensors | distances | mutexes | steps => cases hi

/-- Every node that is no sensor is listed for its class. -/
theorem Holds.mem_classList_iff (hh : r.Holds records) (hv : r.Valid) (hc : c ≠ .sensors) :
    i ∈ r.classList c ↔ ∃ d, r.decls[i]? = some d ∧ d.kind.tag.classOf = c := by
  refine ⟨hv.classOf_of_mem, ?_⟩
  rintro ⟨d, hd, rfl⟩
  have hlisted := (hh.mem_listed_iff hv).2 ⟨d, hd, fun ht => hc (by rw [ht]; rfl)⟩
  obtain ⟨c, hi⟩ := exists_mem_classList hlisted
  obtain ⟨e, he, rfl⟩ := hv.classOf_of_mem hi
  rw [hd, Option.some.injEq] at he
  rwa [he]

/-- What is listed for a class are its declarations, in their order. -/
theorem Holds.map_classList (hh : r.Holds records) (hv : r.Valid) (hc : c ≠ .sensors) :
    (r.classList c).map (r.decls[·]?) =
      (r.decls.filter (·.kind.tag.classOf = c)).map some := by
  apply map_getElem?_of_ascending hv.ascending_classList
  simpa only [decide_eq_true_eq] using fun i => hh.mem_classList_iff hv hc

/-- The layout, told from the declarations. -/
theorem Holds.placed_eq (hh : r.Holds records) (hv : r.Valid) : r.placed = planned r.decls := by
  have ha := hh.addressed hv
  have hlisted : r.listed.map (r.decls[·]?) = (listedDecls r.decls).map some := by
    rw [listed_eq_flatMap, listedDecls, List.map_flatMap, List.map_flatMap]
    apply List.flatMap_congr
    intro c hc
    apply hh.map_classList hv
    rintro rfl
    simp at hc
  unfold placed layout planned
  rw [List.map_append, List.map_map, List.map_map, hv.sensorSlots_eq ha]
  congr 1
  apply List.map_congr_left
  intro p _
  exact hv.sensorAt?_eq ha _

end Registry

/-! ## The layout of rearranged records -/

variable {decls decls' : List Decl}

theorem map_sensorAt? (a : UInt32) :
    (sensorAt? decls a).map Decl.unnumbered = sensorAt? (decls.map Decl.unnumbered) a := by
  unfold sensorAt?
  rw [List.find?_map]
  rfl

theorem map_listedDecls :
    (listedDecls decls).map Decl.unnumbered = listedDecls (decls.map Decl.unnumbered) := by
  unfold listedDecls
  rw [List.map_flatMap]
  apply List.flatMap_congr
  intro c _
  rw [List.filter_map]
  rfl

theorem addressSpan_unnumbered : addressSpan (decls.map Decl.unnumbered) = addressSpan decls := by
  unfold addressSpan
  rw [List.filterMap_map]
  rfl

/-- The layout without lines is that of the declarations without lines. -/
theorem map_planned : (planned decls).map (Option.map Decl.unnumbered) =
    planned (decls.map Decl.unnumbered) := by
  unfold planned
  rw [List.map_append, List.map_map, List.map_map, addressSpan_unnumbered, ← map_listedDecls,
    List.map_map]
  congr 1
  apply List.map_congr_left
  intro p _
  exact map_sensorAt? _

/-- Sensors of one address are one sensor. -/
theorem Distinct.eq_of_address (h : Distinct decls) {d e : Decl} {a : UInt32} (hd : d ∈ decls)
    (he : e ∈ decls) (hda : d.kind.address? = some a) (hea : e.kind.address? = some a) : d = e := by
  by_contra hne
  have hpairwise := h.addresses
  unfold List.Nodup at hpairwise
  rw [List.pairwise_filterMap] at hpairwise
  have hsymm : Std.Symm fun d e : Decl => ∀ b, d.kind.address? = some b →
      ∀ b', e.kind.address? = some b' → b ≠ b' := ⟨fun d e h b hb b' hb' => (h b' hb' b hb).symm⟩
  exact hpairwise.forall hd he hne a hda a hea rfl

theorem distinct_unnumbered (h : Distinct decls) : Distinct (decls.map Decl.unnumbered) := by
  refine ⟨?_, ?_⟩
  · rw [List.map_map]
    exact h.names
  · rw [List.filterMap_map]
    exact h.addresses

/-- The layout depends on the order of the declarations only within the classes of nodes that are no
sensors. -/
theorem planned_eq (hd : (decls.map Decl.unnumbered).Perm (decls'.map Decl.unnumbered))
    (hc : ∀ c, c ≠ Record.Class.sensors → c ≠ Record.Class.distances →
      (decls.map Decl.unnumbered).filter (·.kind.tag.classOf = c) =
        (decls'.map Decl.unnumbered).filter (·.kind.tag.classOf = c))
    (hone : Distinct decls) :
    (planned decls).map (Option.map Decl.unnumbered) =
      (planned decls').map (Option.map Decl.unnumbered) := by
  have hsensor : ∀ a, sensorAt? (decls.map Decl.unnumbered) a =
      sensorAt? (decls'.map Decl.unnumbered) a := by
    intro a
    apply find?_eq_of_perm hd
    intro d hd e he hda hea
    exact (distinct_unnumbered hone).eq_of_address hd he (of_decide_eq_true hda)
      (of_decide_eq_true hea)
  have hlisted : listedDecls (decls.map Decl.unnumbered) =
      listedDecls (decls'.map Decl.unnumbered) := by
    apply List.flatMap_congr
    intro c hmem
    refine hc c ?_ ?_
    · rintro rfl
      simp at hmem
    · rintro rfl
      simp at hmem
  rw [map_planned, map_planned]
  unfold planned
  simp only [hsensor, hlisted, addressSpan_unnumbered, addressSpan_eq_of_perm hd]

/-- Rearranged records have the same layout, apart from lines. -/
theorem Registry.Holds.placed_eq_of_rearranged {r r' : Registry}
    {records records' : List LineRecord} (hh : r.Holds records) (hv : r.Valid)
    (hh' : r'.Holds records') (hv' : r'.Valid) (h : Rearranged records records') :
    r.placed.map (Option.map Decl.unnumbered) = r'.placed.map (Option.map Decl.unnumbered) := by
  rw [hh.placed_eq hv, hh'.placed_eq hv', hh.decls_eq, hh'.decls_eq]
  exact planned_eq h.decls_perm (fun c hc hc' => h.filter_decls hc hc')
    (hh.decls_eq ▸ hv.distinct (hh.addressed hv))

end TrackPlan
