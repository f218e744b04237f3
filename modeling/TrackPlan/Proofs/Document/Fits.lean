import TrackPlan.Document.View
import TrackPlan.Proofs.Lists
import TrackPlan.Text.Word

/-!
# Data of a shape

What is written of a datum can be read by a shape if the datum is of this shape (`Fits`), and the
shape is one that every format can tell (`Shape.isRegular`).

1. `Fits` and `Shape.isRegular` are told here once for all formats. A structure has the fields of its
   shape in their order (`forall₂_of_names`).
2. `View.readFields?_eq_some` puts a structure together from fields that are read one by one.
3. If a view shows the trees that stand for data as these data, one level deep (`View.Shows`), it
   reads them as these data (`View.Shows.read?_eq_some`).
-/

namespace TrackPlan

/-- The datum is what the shape says, and the numbers in it are below a limit. -/
inductive Fits (limit : Nat) : Shape → Datum → Prop
  | text (s : String) : Fits limit .text (.text s)
  | number {bound n : Nat} (hb : n < bound) (hl : n < limit) :
    Fits limit (.number bound) (.number n)
  | flag (b : Bool) : Fits limit .flag (.flag b)
  | choice {names : List String} {name : String} (h : name ∈ names) :
    Fits limit (.choice names) (.choice name)
  | absent (s : Shape) : Fits limit (.option s) .absent
  | present {s : Shape} {d : Datum} (h : Fits limit s d) : Fits limit (.option s) (.present d)
  | list {s : Shape} {ds : List Datum} (h : ∀ d ∈ ds, Fits limit s d) :
    Fits limit (.list s) (.list ds)
  | struct {name : String} {layout : Layout} {fields : List (String × Datum)}
    (hn : fields.map Prod.fst = layout.map Prod.fst)
    (h : ∀ p ∈ layout.zip fields, Fits limit p.1.2.1 p.2.2) :
    Fits limit (.struct name layout) (.struct fields)

/-! ## Shapes that every format can tell -/

/-- A name that can stand without quotes: an ASCII letter or an underscore, and more word
characters. -/
def isWord (name : String) : Bool :=
  match name.toList with
  | c :: cs => (c.isAlpha || c == '_') && cs.all Text.isWordChar
  | [] => false

/-- Whether a field counts as an optional datum that is not there if it is missing. -/
def isAbsent : Option Datum → Bool
  | some .absent => true
  | _ => false

theorem isAbsent_iff {default : Option Datum} :
    isAbsent default = true ↔ default = some .absent := by
  unfold isAbsent
  split <;> simp_all

namespace Shape

def isOption : Shape → Bool
  | option _ => true
  | _ => false

def isStruct : Shape → Bool
  | struct _ _ => true
  | _ => false

mutual

/-- Whether every format can tell data of the shape: names are words, those in a structure differ
from each other, one of its fields at least is no optional one, and a list holds structures. An
optional datum is not optional twice; as a field, it is not there by default. -/
def isRegular : Shape → Bool
  | text | number _ | flag => true
  | choice names => names.all isWord
  | option s => !s.isOption && s.isRegular
  | list s => s.isStruct && s.isRegular
  | struct _ layout =>
    (layout.map Prod.fst).Nodup && layout.any (!·.2.1.isOption) && areRegular layout

/-- As `isRegular`, of the fields of a structure. -/
def areRegular : Layout → Bool
  | [] => true
  | (name, s, default) :: rest =>
    isWord name && s.isRegular && (!s.isOption || isAbsent default) && areRegular rest

end

mutual

/-- How deep data of the shape may be nested, with a level for each structure or list, for each
field or item of it, and for each optional datum. -/
def depth : Shape → Nat
  | text | number _ | flag | choice _ => 0
  | option s => s.depth + 1
  | list s => s.depth + 2
  | struct _ layout => layoutDepth layout + 2

/-- As `depth`, of the fields of a structure. -/
def layoutDepth : Layout → Nat
  | [] => 0
  | (_, s, _) :: rest => max s.depth (layoutDepth rest)

end

end Shape

/-- Whether the datum is an optional one. -/
def Datum.isOptional : Datum → Bool
  | absent | present _ => true
  | _ => false

/-- Whether the datum is a structure. -/
def Datum.isStruct : Datum → Bool
  | struct _ => true
  | _ => false

theorem Fits.isStruct_eq {limit : Nat} {s : Shape} {d : Datum} (h : Fits limit s d) :
    d.isStruct = s.isStruct := by
  cases h <;> rfl

theorem Fits.isOptional_eq {limit : Nat} {s : Shape} {d : Datum} (h : Fits limit s d) :
    d.isOptional = s.isOption := by
  cases h <;> rfl

/-- What regular fields have in common. -/
structure RegularField (f : String × Shape × Option Datum) : Prop where
  isWord : isWord f.1 = true
  isRegular : f.2.1.isRegular = true
  default_of_isOption : f.2.1.isOption = true → f.2.2 = some .absent

theorem Shape.areRegular_iff {layout : Layout} :
    areRegular layout = true ↔ ∀ f ∈ layout, RegularField f := by
  induction layout with
  | nil => simp [areRegular]
  | cons f rest ih =>
    obtain ⟨name, s, default⟩ := f
    rw [areRegular, Bool.and_eq_true, ih, List.forall_mem_cons]
    refine and_congr_left fun _ => ?_
    rw [Bool.and_eq_true, Bool.and_eq_true, and_assoc, Bool.or_eq_true, isAbsent_iff,
      Bool.not_eq_true', ← Bool.not_eq_true, ← imp_iff_not_or]
    exact ⟨fun ⟨hw, hs, hd⟩ => ⟨hw, hs, hd⟩, fun ⟨hw, hs, hd⟩ => ⟨hw, hs, hd⟩⟩

theorem Shape.isRegular_struct_iff {name : String} {layout : Layout} :
    (Shape.struct name layout).isRegular = true ↔ (layout.map Prod.fst).Nodup ∧
      (∃ f ∈ layout, f.2.1.isOption = false) ∧ ∀ f ∈ layout, RegularField f := by
  rw [isRegular, Bool.and_eq_true, Bool.and_eq_true, areRegular_iff, List.any_eq_true, and_assoc,
    decide_eq_true_eq]
  simp

/-- The shape of a field is no deeper than that of the structure. -/
theorem Shape.depth_le_layoutDepth {layout : Layout} {f : String × Shape × Option Datum}
    (h : f ∈ layout) : f.2.1.depth ≤ layoutDepth layout := by
  induction layout with
  | nil => cases h
  | cons g rest ih =>
    rw [layoutDepth]
    rcases List.mem_cons.1 h with rfl | h
    · exact Nat.le_max_left _ _
    · exact Nat.le_trans (ih h) (Nat.le_max_right _ _)

/-! ## Fields in step with a shape -/

/-- The fields of a structure, in the order of the shape. -/
abbrev InStep (R : Shape → Datum → Prop) (layout : Layout) (fields : List (String × Datum)) : Prop :=
  List.Forall₂ (fun f e => e.1 = f.1 ∧ R f.2.1 e.2) layout fields

/-- What holds of each field holds of the fields in step with those of the shape. -/
theorem forall₂_of_names {R : Shape → Datum → Prop} {layout : Layout}
    {fields : List (String × Datum)} (hn : fields.map Prod.fst = layout.map Prod.fst)
    (h : ∀ p ∈ layout.zip fields, R p.1.2.1 p.2.2) : InStep R layout fields := by
  induction layout generalizing fields with
  | nil =>
    rw [List.map_nil, List.map_eq_nil_iff] at hn
    subst hn
    exact .nil
  | cons f rest ih =>
    cases fields with
    | nil => cases hn
    | cons e more =>
      rw [List.map_cons, List.map_cons, List.cons.injEq] at hn
      rw [List.zip_cons_cons, List.forall_mem_cons] at h
      exact .cons ⟨hn.1, h.1⟩ (ih hn.2 h.2)

theorem InStep.names_eq {R : Shape → Datum → Prop} {layout : Layout}
    {fields : List (String × Datum)} (h : InStep R layout fields) :
    fields.map Prod.fst = layout.map Prod.fst := by
  induction h with
  | nil => rfl
  | cons he _ ih => rw [List.map_cons, List.map_cons, he.1, ih]

/-- A structure is what its shape says if the fields in step with those of the shape are. -/
theorem Fits.of_inStep {limit : Nat} {name : String} {layout : Layout}
    {fields : List (String × Datum)} (h : InStep (Fits limit) layout fields) :
    Fits limit (.struct name layout) (.struct fields) :=
  .struct h.names_eq fun _ hp => ((List.forall₂_iff_zip.1 h).2 hp).2

/-- Every field stands beside one of the shape. -/
theorem exists_mem_zip {layout : Layout} {fields : List (String × Datum)}
    (hn : fields.map Prod.fst = layout.map Prod.fst) {e : String × Datum} (he : e ∈ fields) :
    ∃ f, (f, e) ∈ layout.zip fields ∧ e.1 = f.1 := by
  have hlen : fields.length = layout.length := by simpa using congrArg List.length hn
  obtain ⟨i, hi, rfl⟩ := List.mem_iff_getElem.1 he
  have hmem : (layout[i], fields[i]) ∈ layout.zip fields := by
    rw [← List.getElem_zip (h := by rw [List.length_zip]; omega)]
    exact List.getElem_mem _
  have hsteps : InStep (fun _ _ => True) layout fields := forall₂_of_names hn fun _ _ => trivial
  exact ⟨layout[i], hmem, ((List.forall₂_iff_zip.1 hsteps).2 hmem).1⟩

/-- Fields that have been read in the order of the shape are complete. -/
theorem Layout.complete_eq_some {layout : Layout} {fields : List (String × Datum)}
    (hn : fields.map Prod.fst = layout.map Prod.fst) (h : (layout.map Prod.fst).Nodup) :
    layout.complete fields = some fields := by
  have hfields : InStep (fun _ _ => True) layout fields := forall₂_of_names hn fun _ _ => trivial
  have hlookup : ∀ e ∈ fields, fields.lookup e.1 = some e.2 :=
    fun e he => lookup_eq_some_of_mem (hn ▸ h) he
  have hboth := ((List.forall₂_and_left fields layout).2 ⟨hlookup, hfields.flip⟩).flip
  rw [complete, if_pos (hn ▸ h)]
  refine mapM_eq_some_of_forall₂ (hboth.imp ?_)
  rintro ⟨name, s, default⟩ ⟨name', d⟩ ⟨he, hname, -⟩
  obtain rfl : name' = name := hname
  simp only at he
  simp [he]

/-! ## Reading through a view -/

namespace View

variable {ν : Type} {v : View ν} {names : List String} {entries : List (String × ν)}

theorem select_eq_self (hn : (entries.map Prod.fst).Nodup)
    (h : ∀ e ∈ entries, e.1 ∈ names) : select names entries = some entries := by
  have hfilter : entries.filter (fun e => names.contains e.1) = entries :=
    List.filter_eq_self.2 fun e he => List.contains_iff_mem.2 (h e he)
  rw [select, hfilter, if_pos hn]

/-- The fields of a structure are read if each of them is read where it stands, or does not stand
there and is what it counts as then. -/
theorem readFields?_eq_some {layout : Layout} {fields : List (String × Datum)}
    (hn : fields.map Prod.fst = layout.map Prod.fst)
    (h : ∀ p ∈ layout.zip fields, (∃ x, entries.lookup p.1.1 = some x ∧
      v.read? p.1.2.1 x = some p.2.2) ∨ entries.lookup p.1.1 = none ∧ p.1.2.2 = some p.2.2) :
    v.readFields? layout entries = some fields := by
  induction layout generalizing fields with
  | nil =>
    rw [List.map_nil, List.map_eq_nil_iff] at hn
    rw [hn, readFields?]
  | cons f rest ih =>
    obtain ⟨name, s, default⟩ := f
    cases fields with
    | nil => cases hn
    | cons e more =>
      obtain ⟨name', d⟩ := e
      rw [List.map_cons, List.map_cons, List.cons.injEq] at hn
      obtain ⟨hname, hn⟩ := hn
      obtain rfl : name' = name := hname
      rw [List.zip_cons_cons, List.forall_mem_cons] at h
      rw [readFields?, ih hn h.2]
      rcases h.1 with ⟨x, hx, hread⟩ | ⟨hx, hdefault⟩
      · simp only at hx hread
        simp [hx, hread]
      · simp only at hx hdefault
        simp [hx, hdefault]

/-- A tree that stands for a datum is shown as one by the view: `Stands d x` says that the tree `x`
stands for the datum `d`. -/
structure Shows (v : View ν) (limit : Nat) (Stands : Datum → ν → Prop) : Prop where
  text : ∀ {s x}, Stands (.text s) x → v.text? x = some s
  number : ∀ {n x}, n < limit → Stands (.number n) x → v.number? x = some n
  flag : ∀ {b x}, Stands (.flag b) x → v.flag? x = some b
  choice : ∀ {name x}, Stands (.choice name) x → v.choice? x = some name
  absent : ∀ {x}, Stands .absent x → v.option? x = some none
  present : ∀ {d x}, d.isOptional = false → Stands (.present d) x →
    ∃ y, v.option? x = some (some y) ∧ Stands d y
  list : ∀ {ds x}, (∀ d ∈ ds, d.isStruct = true) → Stands (.list ds) x →
    ∃ xs, v.list? x = some xs ∧ List.Forall₂ Stands ds xs
  /-- A field stands under its name, unless it is an optional one that is not there. -/
  struct : ∀ {fields x}, (fields.map Prod.fst).Nodup → Stands (.struct fields) x →
    ∃ entries, v.struct? (fields.map Prod.fst) x = some entries ∧ ∀ f ∈ fields,
      (∃ y, entries.lookup f.1 = some y ∧ Stands f.2 y) ∨
        entries.lookup f.1 = none ∧ f.2 = .absent

/-- A tree that stands for a datum of a regular shape is read as the datum. -/
theorem Shows.read?_eq_some {limit : Nat} {Stands : Datum → ν → Prop} (hv : v.Shows limit Stands)
    {s : Shape} {d : Datum} (h : Fits limit s d) (hs : s.isRegular = true) {x : ν}
    (hx : Stands d x) : v.read? s x = some d := by
  induction h generalizing x with
  | text s => rw [read?, hv.text hx]; rfl
  | number hb hl =>
    rw [read?, hv.number hl hx, Option.filter_some, if_pos (decide_eq_true hb)]
    rfl
  | flag b => rw [read?, hv.flag hx]; rfl
  | choice hmem =>
    rw [read?, hv.choice hx, Option.filter_some, if_pos (List.contains_iff_mem.2 hmem)]
    rfl
  | absent s =>
    rw [read?, hv.absent hx]
    rfl
  | @present s d h ih =>
    rw [Shape.isRegular, Bool.and_eq_true, Bool.not_eq_true'] at hs
    obtain ⟨y, hy, hstands⟩ := hv.present (h.isOptional_eq.trans hs.1) hx
    rw [read?, hy]
    simp [ih hs.2 hstands]
  | @list s ds h ih =>
    rw [Shape.isRegular, Bool.and_eq_true] at hs
    obtain ⟨xs, hxs, hstands⟩ := hv.list (fun d hd => (h d hd).isStruct_eq.trans hs.1) hx
    have hitem : ∀ d ∈ ds, ∀ {y}, Stands d y → v.read? s y = some d :=
      fun d hd => ih d hd hs.2
    have hread : List.Forall₂ (fun y d => v.read? s y = some d) xs ds :=
      ((List.forall₂_and_left ds xs).2 ⟨hitem, hstands⟩).flip.imp fun _ _ h => h.1 h.2
    rw [read?, hxs]
    simp [mapM_eq_some_of_forall₂ hread]
  | @struct name layout fields hn h ih =>
    rw [Shape.isRegular_struct_iff] at hs
    obtain ⟨hnodup, -, hregular⟩ := hs
    obtain ⟨entries, hentries, hfields⟩ := hv.struct (hn ▸ hnodup) hx
    have hread : v.readFields? layout entries = some fields := by
      refine readFields?_eq_some hn fun p hp => ?_
      have hname : p.2.1 = p.1.1 :=
        ((List.forall₂_iff_zip.1 (forall₂_of_names hn h)).2 hp).1
      obtain ⟨hp₁, hp₂⟩ := List.of_mem_zip hp
      have hf := hregular p.1 hp₁
      rcases hfields p.2 hp₂ with ⟨y, hy, hstands⟩ | ⟨hy, habsent⟩
      · exact Or.inl ⟨y, hname ▸ hy, ih p hp hf.isRegular hstands⟩
      · have hoption := (h p hp).isOptional_eq
        rw [habsent] at hoption
        exact Or.inr ⟨hname ▸ hy, habsent ▸ hf.default_of_isOption hoption.symm⟩
    rw [read?, ← hn, hentries]
    simp [hread]

end View

end TrackPlan
