import TrackPlan.Proofs.Document.Toml.Lines

/-!
# TOML statements of data

1. A datum stands in a TOML value (`Toml.tree`): of a structure the plain fields come first and then
   those that have tables of their own.
2. What is written of a datum is read as statements (`Toml.tableStatements`), whose keys begin with
   the path at which it is written (`Toml.exists_table`).
-/

namespace TrackPlan.Toml

variable {d : Datum} {fields : List (String × Datum)} {keys : List String} {s : Shape}

/-! ## The value of a datum -/

mutual

/-- The value of a datum. -/
def tree : Datum → Toml
  | .text s | .choice s => .text s
  | .number n => .integer n
  | .flag b => .bool b
  | .absent => .array []
  | .present d => tree d
  | .list [] => .array []
  | .list (d :: ds) => .tables (elements (d :: ds)).reverse
  | .struct fields =>
    .table (if (plainTrees fields).isEmpty then .implied else .header)
      (plainTrees fields ++ tableTrees fields)

/-- The values of the plain fields. -/
def plainTrees : List (String × Datum) → Entries
  | [] => []
  | (_, .absent) :: rest => plainTrees rest
  | (name, d) :: rest => if isTable d then plainTrees rest else (name, tree d) :: plainTrees rest

/-- The values of the fields that have tables of their own. -/
def tableTrees : List (String × Datum) → Entries
  | [] => []
  | (name, d) :: rest => if isTable d then (name, tree d) :: tableTrees rest else tableTrees rest

/-- The entries of structures. -/
def elements : List Datum → List Entries
  | [] => []
  | .struct fields :: rest => (plainTrees fields ++ tableTrees fields) :: elements rest
  | _ :: rest => [] :: elements rest

end

/-! ## Statements -/

/-- The statement, below a path. -/
def Statement.under (path : List String) : Statement → Statement
  | header keys => header (path ++ keys)
  | element keys => element (path ++ keys)
  | entry keys x => entry keys x

theorem Statement.under_under (path keys : List String) (s : Statement) :
    (s.under keys).under path = s.under (path ++ keys) := by
  cases s <;> simp [under]

theorem Statement.under_nil (s : Statement) : s.under [] = s := by
  cases s <;> rfl

/-- The entries of the plain fields. -/
def plainStatements (fields : List (String × Datum)) : List Statement :=
  (plainTrees fields).map fun e => .entry [e.1] e.2

mutual

/-- The statements of a datum, as seen from its own path. -/
def tableStatements : Datum → List Statement
  | .struct fields =>
    (if (plainTrees fields).isEmpty then [] else [.header []]) ++ plainStatements fields ++
      fieldStatements fields
  | .list ds => elementStatements ds
  | .present d => tableStatements d
  | _ => []

/-- The statements of fields that have tables of their own, as seen from their structure. -/
def fieldStatements : List (String × Datum) → List Statement
  | [] => []
  | (name, d) :: rest => (tableStatements d).map (.under [name]) ++ fieldStatements rest

/-- The statements of structures in a list. -/
def elementStatements : List Datum → List Statement
  | [] => []
  | .struct fields :: rest =>
    .element [] :: plainStatements fields ++ fieldStatements fields ++ elementStatements rest
  | _ :: rest => elementStatements rest

end

/-! ## From texts to statements -/

/-- What is written of a plain datum is read as its value. -/
theorem exists_plain (h : Fits (maxInteger + 1) s d) (hs : s.isRegular = true)
    (ht : isTable d = false) (hd : d ≠ .absent) :
    ∃ line, plain? d = some line ∧ ReadsValue line (tree d) := by
  induction h with
  | text s => exact ⟨_, rfl, readsValue_quote s⟩
  | @number _ n _ hl =>
    have hn : n ≤ maxInteger := Nat.le_of_lt_succ hl
    exact ⟨_, if_pos hn, readsValue_ofNat hn⟩
  | flag b => exact ⟨_, rfl, readsValue_flag b⟩
  | @choice _ name _ => exact ⟨_, rfl, readsValue_quote name⟩
  | absent s => exact absurd rfl hd
  | @present s d h ih =>
    rw [Shape.isRegular, Bool.and_eq_true, Bool.not_eq_true'] at hs
    have hinner : d ≠ .absent := by
      rintro rfl
      have hoption := h.isOptional_eq
      rw [hs.1] at hoption
      cases hoption
    exact ih hs.2 ht hinner
  | @list s ds h =>
    cases ds with
    | nil => exact ⟨_, rfl, readsValue_nil⟩
    | cons d ds => cases ht
  | struct => cases ht

/-- The fields fit regular shapes and have words for names. -/
def Regular (fields : List (String × Datum)) : Prop :=
  ∀ e ∈ fields, isWord e.1 = true ∧ ∃ s, Fits (maxInteger + 1) s e.2 ∧ s.isRegular = true

/-- The plain fields are written on lines that are read as their entries. -/
theorem exists_plainFields (h : Regular fields) : ∃ cs, plainFields? fields = some cs ∧
    Reads cs (plainStatements fields) ∧ cs.isEmpty = (plainTrees fields).isEmpty := by
  induction fields with
  | nil => exact ⟨[], rfl, .nil, rfl⟩
  | cons e fields ih =>
    obtain ⟨name, d⟩ := e
    have hhead := h (name, d) List.mem_cons_self
    obtain ⟨cs, hcs, hreads, hempty⟩ := ih fun e he => h e (List.mem_cons_of_mem _ he)
    obtain ⟨hname, s, hfits, hs⟩ := hhead
    by_cases hd : d = .absent
    · subst hd
      exact ⟨cs, hcs, hreads, hempty⟩
    · have hplain : plainFields? ((name, d) :: fields) =
          if isTable d then plainFields? fields
          else do
            let line ← plain? d
            return name.toList ++ [' ', '=', ' '] ++ line ++ '\n' :: (← plainFields? fields) := by
        rw [plainFields?.eq_3 _ _ _ hd]
      have htree : plainTrees ((name, d) :: fields) =
          if isTable d then plainTrees fields else (name, tree d) :: plainTrees fields := by
        rw [plainTrees.eq_3 _ _ _ hd]
      by_cases ht : isTable d = true
      · rw [if_pos ht] at hplain htree
        refine ⟨cs, hplain.trans hcs, ?_, hempty.trans (by rw [htree])⟩
        rw [plainStatements, htree]
        exact hreads
      · rw [if_neg ht] at hplain htree
        obtain ⟨line, hline, hvalue⟩ := exists_plain hfits hs (by simpa using ht) hd
        rw [hline, hcs] at hplain
        refine ⟨_, hplain, ?_, ?_⟩
        · have hentry := (reads_entry hname hvalue).append hreads
          rw [plainStatements, htree]
          simpa [plainStatements] using hentry
        · rw [htree]
          simp

theorem map_under_under (path keys : List String) (ss : List Statement) :
    (ss.map (Statement.under keys)).map (Statement.under path) =
      ss.map (Statement.under (path ++ keys)) := by
  rw [List.map_map]
  exact List.map_congr_left fun s _ => Statement.under_under path keys s

theorem map_under_plainStatements (path : List String) (fields : List (String × Datum)) :
    (plainStatements fields).map (.under path) = plainStatements fields := by
  rw [plainStatements, List.map_map]
  rfl

/-- The tables of fields are read as the statements of each. -/
theorem exists_tables (h : ∀ e ∈ fields, ∃ cs, table? (keys ++ [e.1]) e.2 = some cs ∧
      Reads cs ((tableStatements e.2).map (.under (keys ++ [e.1])))) :
    ∃ cs, tables? keys fields = some cs ∧ Reads cs ((fieldStatements fields).map (.under keys)) := by
  induction fields with
  | nil => exact ⟨[], rfl, .nil⟩
  | cons e fields ih =>
    obtain ⟨name, d⟩ := e
    rw [List.forall_mem_cons] at h
    obtain ⟨head, hhead, hreads⟩ := h.1
    obtain ⟨cs, hcs, hrest⟩ := ih h.2
    refine ⟨head ++ cs, by rw [tables?, hhead, hcs]; rfl, ?_⟩
    rw [fieldStatements, List.map_append, map_under_under]
    exact hreads.append hrest

/-- The structures of a list are read as the statements of each. -/
theorem exists_elements (hne : keys ≠ []) (hw : ∀ key ∈ keys, isWord key = true)
    (hdepth : keys.length ≤ maxDepth) {ds : List Datum}
    (h : ∀ d ∈ ds, ∃ fields, d = .struct fields ∧ Regular fields ∧
      ∃ cs, tables? keys fields = some cs ∧ Reads cs ((fieldStatements fields).map (.under keys))) :
    ∃ cs, elements? keys ds = some cs ∧ Reads cs ((elementStatements ds).map (.under keys)) := by
  induction ds with
  | nil => exact ⟨[], rfl, .nil⟩
  | cons d ds ih =>
    rw [List.forall_mem_cons] at h
    obtain ⟨fields, rfl, hregular, tables, htables, hreads⟩ := h.1
    obtain ⟨cs, hcs, hrest⟩ := ih h.2
    obtain ⟨plain, hplain, hentries, -⟩ := exists_plainFields hregular
    have hss : (elementStatements (.struct fields :: ds)).map (.under keys) =
        [.element keys] ++ plainStatements fields ++ (fieldStatements fields).map (.under keys) ++
          (elementStatements ds).map (.under keys) := by
      simp [elementStatements, map_under_plainStatements, Statement.under]
    refine ⟨_, by rw [elements?, hplain, htables, hcs]; rfl, ?_⟩
    rw [hss]
    exact (((reads_element hne hw hdepth).append hentries).append hreads).append hrest

/-- The tables of a structure, with a header if it has plain fields. -/
theorem exists_struct (hne : keys ≠ []) (hw : ∀ key ∈ keys, isWord key = true)
    (hdepth : keys.length ≤ maxDepth) (h : Regular fields)
    (htables : ∃ cs, tables? keys fields = some cs ∧
      Reads cs ((fieldStatements fields).map (.under keys))) :
    ∃ cs, table? keys (.struct fields) = some cs ∧
      Reads cs ((tableStatements (.struct fields)).map (.under keys)) := by
  obtain ⟨tables, htables, hreads⟩ := htables
  obtain ⟨plain, hplain, hentries, hempty⟩ := exists_plainFields h
  refine ⟨_, by rw [table?, hplain, htables]; rfl, ?_⟩
  rw [tableStatements, List.map_append, List.map_append, map_under_plainStatements, hempty]
  refine (Reads.append ?_ hentries).append hreads
  split
  · exact .nil
  · simpa [Statement.under] using reads_header hne hw hdepth

theorem Regular.of_fits (h : Fits (maxInteger + 1) s (.struct fields)) (hs : s.isRegular = true) :
    Regular fields := by
  cases h with
  | struct hn h =>
    rw [Shape.isRegular_struct_iff] at hs
    intro e he
    obtain ⟨f, hp, hname⟩ := exists_mem_zip hn he
    have hf := hs.2.2 f (List.of_mem_zip hp).1
    exact ⟨hname ▸ hf.isWord, f.2.1, h _ hp, hf.isRegular⟩

theorem exists_fields_of_isStruct (h : d.isStruct = true) : ∃ fields, d = .struct fields := by
  cases d <;> simp [Datum.isStruct] at h ⊢

/-- What is written of a datum at a path is read as its statements, and so are the tables of the
fields of a structure. -/
theorem exists_table (h : Fits (maxInteger + 1) s d) (hs : s.isRegular = true)
    (hw : ∀ key ∈ keys, isWord key = true) (hdepth : keys.length + s.depth ≤ maxDepth) :
    (keys ≠ [] → ∃ cs, table? keys d = some cs ∧
      Reads cs ((tableStatements d).map (.under keys))) ∧
    ∀ fields, d = .struct fields → ∃ cs, tables? keys fields = some cs ∧
      Reads cs ((fieldStatements fields).map (.under keys)) := by
  induction h generalizing keys with
  | text | number | flag | choice | absent =>
    exact ⟨fun _ => ⟨[], rfl, .nil⟩, fun _ h => Datum.noConfusion h⟩
  | @present s d h ih =>
    rw [Shape.isRegular, Bool.and_eq_true] at hs
    rw [Shape.depth] at hdepth
    exact ⟨(ih hs.2 hw (by omega)).1, fun _ h => Datum.noConfusion h⟩
  | @list s ds h ih =>
    rw [Shape.isRegular, Bool.and_eq_true] at hs
    rw [Shape.depth] at hdepth
    refine ⟨fun hne => exists_elements hne hw (by omega) fun d hd => ?_,
      fun _ h => Datum.noConfusion h⟩
    obtain ⟨fields, rfl⟩ := exists_fields_of_isStruct ((h d hd).isStruct_eq.trans hs.1)
    exact ⟨fields, rfl, .of_fits (h _ hd) hs.2, (ih _ hd hs.2 hw (by omega)).2 fields rfl⟩
  | @struct name layout fields hn h ih =>
    have hregular : Regular fields := .of_fits (.struct hn h) hs
    rw [Shape.isRegular_struct_iff] at hs
    rw [Shape.depth] at hdepth
    have htables : ∃ cs, tables? keys fields = some cs ∧
        Reads cs ((fieldStatements fields).map (.under keys)) := by
      refine exists_tables fun e he => ?_
      obtain ⟨f, hp, hname⟩ := exists_mem_zip hn he
      have hf := (List.of_mem_zip hp).1
      have hfield := hs.2.2 f hf
      have hle := Shape.depth_le_layoutDepth hf
      refine (ih _ hp hfield.isRegular ?_ ?_).1 (by simp)
      · intro key hkey
        rcases List.mem_append.1 hkey with hkey | hkey
        · exact hw key hkey
        · rw [List.mem_singleton.1 hkey, hname]
          exact hfield.isWord
      · rw [List.length_append, List.length_singleton]
        simp only
        omega
    refine ⟨fun hne => exists_struct hne hw (by omega) hregular htables, ?_⟩
    rintro fields' heq
    cases heq
    exact htables

end TrackPlan.Toml
