import TrackPlan.Proofs.Document.Toml.Statements

/-!
# TOML reads back

Carrying out the statements of a datum makes its value.

1. What statements do below a path does not depend on what is around it, as long as the path leads
   to one table (`Toml.Focus`, `Toml.execute_under`). A path that leads nowhere yet is implied by the
   first header below it (`Toml.execute_implied`).
2. So the statements of a structure make its entries, and those of a datum with tables of its own
   add its value under its name (`Toml.execute_table`).
3. A view shows the value as the datum (`Toml.shows_stands`), which gives
   `Toml.exists_read?_render`.
-/

namespace TrackPlan.Toml

variable {d : Datum} {fields : List (String × Datum)} {name : String} {cur path : List String}
  {es : Entries} {ss : List Statement} {limit : Nat} {s : Shape}

/-! ## From statements to tables -/

theorem update_of_fresh (f : Option Toml → Option Toml) (h : name ∉ es.map Prod.fst) :
    update name f es = (f none).map fun x => es ++ [(name, x)] := by
  induction es with
  | nil => rfl
  | cons e es ih =>
    obtain ⟨key, x⟩ := e
    rw [List.map_cons, List.mem_cons, not_or] at h
    rw [update, if_neg (Ne.symm h.1), ih h.2, Option.map_map]
    rfl

theorem update_last (f : Option Toml → Option Toml) (x : Toml) (h : name ∉ es.map Prod.fst) :
    update name f (es ++ [(name, x)]) = (f (some x)).map fun y => es ++ [(name, y)] := by
  induction es with
  | nil => simp [update]
  | cons e es ih =>
    obtain ⟨key, y⟩ := e
    rw [List.map_cons, List.mem_cons, not_or] at h
    rw [List.cons_append, update, if_neg (Ne.symm h.1), ih h.2, Option.map_map]
    rfl

theorem within_append (f : Entries → Option Entries) (path path' : List String) (es : Entries) :
    within f (path ++ path') es = within (within f path') path es := by
  have hfun : ∀ (path : List String) (es : Entries),
      within f (path ++ path') es = within (within f path') path es := by
    intro path
    induction path with
    | nil => intro es; rfl
    | cons key path ih =>
      intro es
      have heq : within f (path ++ path') = within (within f path') path := funext ih
      rw [List.cons_append, within, within, heq]
  exact hfun path es

theorem within_of_fresh (f : Entries → Option Entries) (h : name ∉ es.map Prod.fst) :
    within f [name] es = (f []).map fun es' => es ++ [(name, .table .implied es')] := by
  rw [within, update_of_fresh _ h]
  simp only [within, Option.map_map]
  rfl

/-- The path leads to one table of what is around it, whatever is in the table. -/
def Focus (path : List String) (around : Entries → Entries) : Prop :=
  ∀ f es, within f path (around es) = (f es).map around

theorem focus_nil : Focus [] id := by
  intro f es
  simp [within]

theorem focus_table {origin : TableOrigin} (h : name ∉ es.map Prod.fst) (ho : origin ≠ .inline) :
    Focus [name] fun es' => es ++ [(name, .table origin es')] := by
  intro f es'
  rw [within, update_last _ _ h]
  simp only [if_neg ho, within, Option.map_map]
  rfl

theorem focus_element {older : List Entries} (h : name ∉ es.map Prod.fst) :
    Focus [name] fun es' => es ++ [(name, .tables (es' :: older))] := by
  intro f es'
  rw [within, update_last _ _ h]
  simp only [within, Option.map_map]
  rfl

/-- The table that is open after a statement. -/
def Statement.current (cur : List String) : Statement → List String
  | header keys | element keys => keys
  | entry _ _ => cur

/-- The statement opens a table below the path that it stands at. -/
def Statement.Opens : Statement → Prop
  | header keys | element keys => keys ≠ []
  | entry _ _ => False

/-- The statement opens a table, or adds to the open one. -/
def Statement.IsProper : Statement → Prop
  | header keys | element keys => keys ≠ []
  | entry _ _ => True

theorem Statement.Opens.under {s : Statement} (h : s.Opens) : (s.under path).Opens := by
  cases s <;> simp_all [Statement.under, Opens]

/-- To open a table is to change the one around it, wherever the last statement was. -/
theorem Statement.Opens.exists_step {s : Statement} (hs : s.Opens) : ∃ keys f,
    ∀ path cur es ss, execute cur es (s.under path :: ss) =
      (within (within f keys) path es).bind fun es' => execute (path ++ Statement.current [] s) es' ss := by
  have hlast : ∀ {keys : List String}, keys ≠ [] → ∃ key, ∀ path : List String,
      (path ++ keys).getLast? = some key ∧ (path ++ keys).dropLast = path ++ keys.dropLast :=
    fun hne => ⟨_, fun path => ⟨by rw [List.getLast?_append_of_ne_nil _ hne,
      List.getLast?_eq_getLast_of_ne_nil hne], List.dropLast_append_of_ne_nil hne⟩⟩
  cases s with
  | header keys =>
    obtain ⟨key, hkey⟩ := hlast hs
    refine ⟨keys.dropLast, openTable key, fun path cur es ss => ?_⟩
    rw [Statement.under, execute, (hkey path).1, (hkey path).2, ← within_append]
    rfl
  | element keys =>
    obtain ⟨key, hkey⟩ := hlast hs
    refine ⟨keys.dropLast, openElement key, fun path cur es ss => ?_⟩
    rw [Statement.under, execute, (hkey path).1, (hkey path).2, ← within_append]
    rfl
  | entry => exact hs.elim

/-- What statements do below a path they do to the table that it leads to. -/
theorem execute_under {around : Entries → Entries} (h : Focus path around)
    (hss : ∀ s ∈ ss, s.IsProper) (cur : List String) (es : Entries) :
    execute (path ++ cur) (around es) (ss.map (.under path)) = (execute cur es ss).map around := by
  induction ss generalizing cur es with
  | nil => rfl
  | cons s ss ih =>
    rw [List.forall_mem_cons] at hss
    have hrest := ih hss.2
    rw [List.map_cons]
    by_cases hs : s.Opens
    · obtain ⟨keys, f, hstep⟩ := hs.exists_step
      have hself := hstep [] cur es ss
      rw [s.under_nil] at hself
      rw [hstep, hself, h]
      cases hes : within f keys es with
      | none => simp [within, hes]
      | some es' => simpa [within, hes] using hrest _ es'
    · cases s with
      | header keys => exact absurd hss.1 hs
      | element keys => exact absurd hss.1 hs
      | entry keys x =>
        rw [Statement.under, execute, execute, within_append, h]
        simp only [Option.bind_eq_bind]
        cases within (assign x true keys) cur es with
        | none => rfl
        | some es' => exact hrest cur es'

/-- A table that is not there is implied by a header of a table inside it. -/
theorem execute_implied {s : Statement} (hs : s.Opens) (hss : ∀ s ∈ ss, s.IsProper)
    (h : name ∉ es.map Prod.fst) (cur : List String) :
    execute cur es ((s :: ss).map (.under [name])) =
      (execute [] [] (s :: ss)).map fun es' => es ++ [(name, .table .implied es')] := by
  have hfocus : Focus [name] fun es' => es ++ [(name, .table .implied es')] :=
    focus_table h (by decide)
  obtain ⟨keys, f, hstep⟩ := hs.exists_step
  have hself := hstep [] [] [] ss
  rw [s.under_nil] at hself
  rw [List.map_cons, hstep, hself, within_of_fresh _ h]
  cases hes : within f keys [] with
  | none => simp [within, hes]
  | some es' => simpa [within, hes] using execute_under hfocus hss _ es'

/-- Statements that follow others begin with what those have made. -/
theorem execute_append (ss ss' : List Statement) (cur : List String) (es : Entries) :
    execute cur es (ss ++ ss') =
      (execute cur es ss).bind fun es' => execute (ss.foldl Statement.current cur) es' ss' := by
  induction ss generalizing cur es with
  | nil => rfl
  | cons s ss ih =>
    rw [List.cons_append, List.foldl_cons]
    cases s with
    | header keys =>
      rw [execute, execute]
      simp only [Option.bind_eq_bind, Option.bind_assoc, ih]
      rfl
    | element keys =>
      rw [execute, execute]
      simp only [Option.bind_eq_bind, Option.bind_assoc, ih]
      rfl
    | entry keys x =>
      rw [execute, execute]
      simp only [Option.bind_eq_bind, Option.bind_assoc, ih]
      rfl

/-- Entries with new keys are added to the open table. -/
theorem execute_entries {around : Entries → Entries} (h : Focus cur around) {xs : Entries}
    (hn : ((es ++ xs).map Prod.fst).Nodup) :
    execute cur (around es) (xs.map fun e => .entry [e.1] e.2) = some (around (es ++ xs)) := by
  induction xs generalizing es with
  | nil => simp [execute]
  | cons x xs ih =>
    obtain ⟨key, x⟩ := x
    have hkey : key ∉ es.map Prod.fst := by
      rw [List.map_append, List.nodup_append] at hn
      exact fun hmem => hn.2.2 key hmem key (by simp) rfl
    have hmove : es ++ (key, x) :: xs = es ++ [(key, x)] ++ xs := by simp
    rw [hmove] at hn ⊢
    rw [List.map_cons, execute, h]
    have hassign : assign x true [key] es = some (es ++ [(key, x)]) := by
      rw [assign, if_pos rfl, update_of_fresh _ hkey]
      rfl
    simp only [hassign, Option.map_some, Option.bind_eq_bind, Option.bind_some]
    exact ih hn

/-! ## The entries of a structure -/

/-- Whether a datum stands on a line of its structure. -/
def isPlain : Datum → Bool
  | .absent => false
  | d => !isTable d

theorem plainTrees_eq (fields : List (String × Datum)) :
    plainTrees fields = (fields.filter (isPlain ·.2)).map fun f => (f.1, tree f.2) := by
  induction fields with
  | nil => rfl
  | cons f fields ih =>
    obtain ⟨name, d⟩ := f
    by_cases hd : d = .absent
    · subst hd
      exact ih
    · have hplain : isPlain d = !isTable d := by
        rw [isPlain.eq_2 _ hd]
      rw [plainTrees.eq_3 _ _ _ hd, ih]
      cases ht : isTable d <;> simp [hplain, ht]

theorem tableTrees_eq (fields : List (String × Datum)) :
    tableTrees fields = (fields.filter (isTable ·.2)).map fun f => (f.1, tree f.2) := by
  induction fields with
  | nil => rfl
  | cons f fields ih =>
    obtain ⟨name, d⟩ := f
    rw [tableTrees, ih]
    cases ht : isTable d <;> simp [ht]

/-- The entries of a structure are its fields, without those that are not there. -/
theorem mem_entries_iff {e : String × Toml} : e ∈ plainTrees fields ++ tableTrees fields ↔
    ∃ f ∈ fields, f.2 ≠ .absent ∧ (f.1, tree f.2) = e := by
  have hsort : ∀ d, d ≠ Datum.absent ↔ isPlain d = true ∨ isTable d = true := by
    intro d
    by_cases hd : d = .absent
    · subst hd
      simp [isPlain, isTable]
    · rw [isPlain.eq_2 _ hd]
      cases isTable d <;> simp [hd]
  rw [plainTrees_eq, tableTrees_eq, List.mem_append]
  simp only [List.mem_map, List.mem_filter, hsort]
  constructor
  · rintro (⟨f, ⟨hf, hp⟩, rfl⟩ | ⟨f, ⟨hf, hp⟩, rfl⟩)
    · exact ⟨f, hf, Or.inl hp, rfl⟩
    · exact ⟨f, hf, Or.inr hp, rfl⟩
  · rintro ⟨f, hf, hp | hp, rfl⟩
    · exact Or.inl ⟨f, ⟨hf, hp⟩, rfl⟩
    · exact Or.inr ⟨f, ⟨hf, hp⟩, rfl⟩

/-- The entries of a structure have different keys. -/
theorem nodup_entries (hn : (fields.map Prod.fst).Nodup) :
    ((plainTrees fields ++ tableTrees fields).map Prod.fst).Nodup := by
  have hnames : ∀ p : String × Datum → Bool,
      ((fields.filter p).map fun f => (f.1, tree f.2)).map Prod.fst =
        (fields.filter p).map Prod.fst := by
    intro p
    rw [List.map_map]
    rfl
  have hsub : ∀ p : String × Datum → Bool, ((fields.filter p).map Prod.fst).Nodup :=
    fun p => hn.sublist (List.filter_sublist.map _)
  rw [plainTrees_eq, tableTrees_eq, List.map_append, hnames, hnames, List.nodup_append]
  refine ⟨hsub _, hsub _, ?_⟩
  rintro _ hplain _ htable rfl
  obtain ⟨f, hf, hname⟩ := List.mem_map.1 hplain
  obtain ⟨f', hf', hname'⟩ := List.mem_map.1 htable
  rw [List.mem_filter] at hf hf'
  obtain rfl := List.inj_on_of_nodup_map hn hf.1 hf'.1 (hname.trans hname'.symm)
  have hp := hf.2
  have hne : f.2 ≠ .absent := by
    intro habsent
    rw [habsent] at hp
    cases hp
  rw [isPlain.eq_2 _ hne, hf'.2] at hp
  cases hp

/-! ## From statements to values -/

theorem tableStatements_eq_nil {d : Datum} (h : isTable d = false) : tableStatements d = [] := by
  match d with
  | .text _ | .number _ | .flag _ | .choice _ | .absent | .list [] => rfl
  | .present d => exact tableStatements_eq_nil (d := d) h

theorem isProper_fieldStatements (fields : List (String × Datum)) :
    ∀ s ∈ fieldStatements fields, s.IsProper := by
  induction fields with
  | nil => simp [fieldStatements]
  | cons f fields ih =>
    obtain ⟨name, d⟩ := f
    rw [fieldStatements]
    rintro s hs
    rcases List.mem_append.1 hs with hs | hs
    · obtain ⟨s', -, rfl⟩ := List.mem_map.1 hs
      cases s' <;> simp [Statement.under, Statement.IsProper]
    · exact ih s hs

/-- The statements of fields begin with one that opens a table, if there are any. -/
theorem exists_fieldStatements (h : ∀ e ∈ fields, isTable e.2 = true →
      ∃ s ss, (tableStatements e.2).map (Statement.under [e.1]) = s :: ss ∧ Statement.Opens s)
    (hne : ∃ e ∈ fields, isTable e.2 = true) :
    ∃ s ss, fieldStatements fields = s :: ss ∧ Statement.Opens s := by
  induction fields with
  | nil => simp at hne
  | cons e fields ih =>
    obtain ⟨name, d⟩ := e
    rw [List.forall_mem_cons] at h
    rw [fieldStatements]
    by_cases ht : isTable d = true
    · obtain ⟨s, ss, hss, hs⟩ := h.1 ht
      exact ⟨s, ss ++ fieldStatements fields, by rw [hss, List.cons_append], hs⟩
    · rw [tableStatements_eq_nil (by simpa using ht), List.map_nil, List.nil_append]
      simp only [List.mem_cons, exists_eq_or_imp] at hne
      exact ih h.2 (hne.resolve_left ht)

/-- The fields of the shape that need not be optional are written. -/
theorem exists_required (h : Fits limit s (.struct fields)) (hs : s.isRegular = true) :
    ∃ e ∈ fields, e.2 ≠ .absent := by
  cases h with
  | @struct _ layout _ hn h =>
    rw [Shape.isRegular_struct_iff] at hs
    obtain ⟨f, hf, hoption⟩ := hs.2.1
    obtain ⟨i, hi, rfl⟩ := List.mem_iff_getElem.1 hf
    have hlen : fields.length = layout.length := by simpa using congrArg List.length hn
    have hp : (layout[i], fields[i]) ∈ layout.zip fields := by
      rw [← List.getElem_zip (h := by rw [List.length_zip]; omega)]
      exact List.getElem_mem _
    refine ⟨fields[i], List.getElem_mem _, fun habsent => ?_⟩
    have hoption' := (h _ hp).isOptional_eq
    simp only [habsent, hoption] at hoption'
    cases hoption'

/-- A structure without plain fields has one with tables of its own. -/
theorem exists_isTable (h : Fits limit s (.struct fields)) (hs : s.isRegular = true)
    (hplain : plainTrees fields = []) : ∃ e ∈ fields, isTable e.2 = true := by
  obtain ⟨e, he, hne⟩ := exists_required h hs
  have hentry := mem_entries_iff.2 ⟨e, he, hne, rfl⟩
  rw [hplain, List.nil_append, tableTrees_eq] at hentry
  obtain ⟨e', he', -⟩ := List.mem_map.1 hentry
  exact ⟨e', List.mem_filter.1 he'⟩

/-- The statements of a datum with tables of its own begin with one that opens a table. -/
theorem exists_tableStatements (h : Fits limit s d) (hs : s.isRegular = true)
    (ht : isTable d = true) (name : String) :
    ∃ s ss, (tableStatements d).map (Statement.under [name]) = s :: ss ∧ Statement.Opens s := by
  induction h generalizing name with
  | text | number | flag | choice | absent => cases ht
  | @present s d h ih =>
    rw [Shape.isRegular, Bool.and_eq_true] at hs
    exact ih hs.2 ht name
  | @list s ds h ih =>
    rw [Shape.isRegular, Bool.and_eq_true] at hs
    cases ds with
    | nil => cases ht
    | cons d ds =>
      obtain ⟨fields, rfl⟩ :=
        exists_fields_of_isStruct ((h d List.mem_cons_self).isStruct_eq.trans hs.1)
      exact ⟨_, _, rfl, by simp [Statement.under, Statement.Opens]⟩
  | @struct n layout fields hn h ih =>
    by_cases hplain : plainTrees fields = []
    · obtain ⟨s, ss, hss, hs⟩ := exists_fieldStatements
        (fun e he ht => by
          obtain ⟨f, hp, -⟩ := exists_mem_zip hn he
          rw [Shape.isRegular_struct_iff] at hs
          exact ih _ hp (hs.2.2 f (List.of_mem_zip hp).1).isRegular ht e.1)
        (exists_isTable (.struct hn h) hs hplain)
      refine ⟨s.under [name], ss.map (.under [name]), ?_, hs.under⟩
      simp [tableStatements, plainStatements, hplain, hss]
    · refine ⟨.header [name], (plainStatements fields ++ fieldStatements fields).map (.under [name]),
        ?_, by simp [Statement.Opens]⟩
      rw [tableStatements, if_neg (by simpa using hplain)]
      rfl

/-! ## Carrying out the statements of a datum -/

theorem execute_fields (h : ∀ e ∈ fields, isTable e.2 = true → ∀ cur es, e.1 ∉ es.map Prod.fst →
      execute cur es ((tableStatements e.2).map (.under [e.1])) = some (es ++ [(e.1, tree e.2)]))
    (hn : ((es ++ tableTrees fields).map Prod.fst).Nodup) (cur : List String) :
    execute cur es (fieldStatements fields) = some (es ++ tableTrees fields) := by
  induction fields generalizing es cur with
  | nil => simp [fieldStatements, tableTrees, execute]
  | cons e fields ih =>
    obtain ⟨name, d⟩ := e
    rw [List.forall_mem_cons] at h
    rw [fieldStatements]
    rw [tableTrees] at hn ⊢
    by_cases ht : isTable d = true
    · rw [if_pos ht] at hn ⊢
      have hname : name ∉ es.map Prod.fst := by
        rw [List.map_append, List.nodup_append] at hn
        exact fun hmem => hn.2.2 name hmem name (by simp) rfl
      have hmove : es ++ (name, tree d) :: tableTrees fields =
          es ++ [(name, tree d)] ++ tableTrees fields := by simp
      rw [hmove] at hn ⊢
      rw [execute_append, h.1 ht cur es hname]
      exact ih h.2 hn _
    · rw [if_neg ht] at hn ⊢
      rw [tableStatements_eq_nil (by simpa using ht)]
      exact ih h.2 hn cur

/-- The statements of a structure make its entries, one by one. -/
theorem execute_struct (h : ∀ e ∈ fields, isTable e.2 = true → ∀ cur es, e.1 ∉ es.map Prod.fst →
      execute cur es ((tableStatements e.2).map (.under [e.1])) = some (es ++ [(e.1, tree e.2)]))
    (hn : (fields.map Prod.fst).Nodup) :
    execute [] [] (plainStatements fields ++ fieldStatements fields) =
      some (plainTrees fields ++ tableTrees fields) := by
  have hentries := nodup_entries hn
  have hnodup : (([] ++ plainTrees fields).map Prod.fst).Nodup := by
    rw [List.map_append] at hentries
    exact (List.nodup_append.1 hentries).1
  have hplain : execute [] [] (plainStatements fields) = some (plainTrees fields) :=
    execute_entries focus_nil hnodup
  rw [execute_append, hplain]
  exact execute_fields h hentries _

theorem isProper_structStatements (fields : List (String × Datum)) :
    ∀ s ∈ plainStatements fields ++ fieldStatements fields, s.IsProper := by
  intro s hs
  rcases List.mem_append.1 hs with hs | hs
  · obtain ⟨e, -, rfl⟩ := List.mem_map.1 hs
    trivial
  · exact isProper_fieldStatements fields s hs

/-- A further structure is added to an array of tables, or the first one. -/
theorem execute_element {es₀ : Entries} {older : List Entries}
    (hopen : openElement name es₀ = some (es ++ [(name, .tables ([] :: older))]))
    (hname : name ∉ es.map Prod.fst)
    (h : execute [] [] (plainStatements fields ++ fieldStatements fields) =
      some (plainTrees fields ++ tableTrees fields)) (cur : List String) :
    execute cur es₀ ((.element [] :: (plainStatements fields ++ fieldStatements fields)).map
        (.under [name])) =
      some (es ++ [(name, .tables ((plainTrees fields ++ tableTrees fields) :: older))]) := by
  have hfocus : Focus [name] fun es' => es ++ [(name, .tables (es' :: older))] :=
    focus_element hname
  have hin := execute_under hfocus (isProper_structStatements fields) [] []
  rw [h] at hin
  rw [List.map_cons, Statement.under, List.append_nil, execute]
  simp only [List.getLast?_singleton, List.dropLast_singleton, within, hopen, Option.bind_eq_bind,
    Option.bind_some]
  exact hin

theorem elementStatements_cons (fields : List (String × Datum)) (ds : List Datum) :
    (elementStatements (.struct fields :: ds)).map (Statement.under [name]) =
      (.element [] :: (plainStatements fields ++ fieldStatements fields)).map
        (Statement.under [name]) ++ (elementStatements ds).map (Statement.under [name]) := by
  rw [elementStatements, List.cons_append, ← List.map_append]

/-- Structures are added one by one to an array of tables. -/
theorem execute_elements {ds : List Datum} (h : ∀ d ∈ ds, ∃ fields, d = .struct fields ∧
      execute [] [] (plainStatements fields ++ fieldStatements fields) =
        some (plainTrees fields ++ tableTrees fields))
    (hname : name ∉ es.map Prod.fst) (older : List Entries) (cur : List String) :
    execute cur (es ++ [(name, .tables older)]) ((elementStatements ds).map (.under [name])) =
      some (es ++ [(name, .tables ((elements ds).reverse ++ older))]) := by
  induction ds generalizing older cur with
  | nil => simp [elementStatements, elements, execute]
  | cons d ds ih =>
    rw [List.forall_mem_cons] at h
    obtain ⟨⟨fields, rfl, hfields⟩, hds⟩ := h
    have hopen : openElement name (es ++ [(name, .tables older)]) =
        some (es ++ [(name, .tables ([] :: older))]) := by
      rw [openElement, update_last _ _ hname]
      rfl
    rw [elementStatements_cons, execute_append, execute_element hopen hname hfields]
    simp only [Option.bind_some]
    rw [ih hds]
    simp [elements]

/-- An array of tables is made by its structures, one by one. -/
theorem execute_list {ds : List Datum} (h : ∀ d ∈ ds, ∃ fields, d = .struct fields ∧
      execute [] [] (plainStatements fields ++ fieldStatements fields) =
        some (plainTrees fields ++ tableTrees fields))
    (ht : isTable (.list ds) = true) (hname : name ∉ es.map Prod.fst) (cur : List String) :
    execute cur es ((tableStatements (.list ds)).map (.under [name])) =
      some (es ++ [(name, tree (.list ds))]) := by
  cases ds with
  | nil => cases ht
  | cons d ds =>
    rw [List.forall_mem_cons] at h
    obtain ⟨⟨fields, rfl, hfields⟩, hds⟩ := h
    have hopen : openElement name es = some (es ++ [(name, .tables [[]])]) := by
      rw [openElement, update_of_fresh _ hname]
      rfl
    rw [tableStatements, elementStatements_cons, execute_append,
      execute_element hopen hname hfields]
    simp only [Option.bind_some]
    rw [execute_elements hds hname]
    simp [tree, elements]

/-- A structure without plain fields has no header: the first table inside it implies its table. -/
theorem execute_headless (hplain : plainTrees fields = [])
    (hopens : ∃ s ss, fieldStatements fields = s :: ss ∧ Statement.Opens s)
    (h : execute [] [] (plainStatements fields ++ fieldStatements fields) =
      some (plainTrees fields ++ tableTrees fields))
    (hname : name ∉ es.map Prod.fst) (cur : List String) :
    execute cur es ((tableStatements (.struct fields)).map (.under [name])) =
      some (es ++ [(name, tree (.struct fields))]) := by
  obtain ⟨s, ss, hss, hopens⟩ := hopens
  have hall : tableStatements (.struct fields) = s :: ss := by
    simp [tableStatements, plainStatements, hplain, hss]
  have hproper := isProper_fieldStatements fields
  rw [hss, List.forall_mem_cons] at hproper
  simp only [plainStatements, hplain, List.map_nil, List.nil_append, hss] at h
  rw [hall, execute_implied hopens hproper.2 hname, h]
  simp [tree, hplain]

/-- A structure with plain fields has a header, and its statements go on below it. -/
theorem execute_headed (hplain : plainTrees fields ≠ [])
    (h : execute [] [] (plainStatements fields ++ fieldStatements fields) =
      some (plainTrees fields ++ tableTrees fields))
    (hname : name ∉ es.map Prod.fst) (cur : List String) :
    execute cur es ((tableStatements (.struct fields)).map (.under [name])) =
      some (es ++ [(name, tree (.struct fields))]) := by
  have hall : tableStatements (.struct fields) =
      .header [] :: (plainStatements fields ++ fieldStatements fields) := by
    simp [tableStatements, hplain]
  have hopen : openTable name es = some (es ++ [(name, .table .header [])]) := by
    rw [openTable, update_of_fresh _ hname]
    rfl
  have hfocus : Focus [name] fun es' => es ++ [(name, .table .header es')] :=
    focus_table hname (by decide)
  have hin := execute_under hfocus (isProper_structStatements fields) [] []
  rw [h] at hin
  rw [hall, List.map_cons, Statement.under, List.append_nil, execute]
  simp only [List.getLast?_singleton, List.dropLast_singleton, within, hopen, Option.bind_eq_bind,
    Option.bind_some]
  rw [tree, if_neg (by simpa using hplain)]
  exact hin

/-- **Statements of a datum.** Those of a datum with tables of its own add its value under its name;
those of a structure make its entries. -/
theorem execute_table (h : Fits limit s d) (hs : s.isRegular = true) :
    (isTable d = true → ∀ name cur es, name ∉ es.map Prod.fst →
      execute cur es ((tableStatements d).map (.under [name])) = some (es ++ [(name, tree d)])) ∧
    ∀ fields, d = .struct fields →
      execute [] [] (plainStatements fields ++ fieldStatements fields) =
        some (plainTrees fields ++ tableTrees fields) := by
  induction h with
  | text | number | flag | choice | absent =>
    exact ⟨fun h => Bool.noConfusion h, fun _ h => Datum.noConfusion h⟩
  | @present s d h ih =>
    rw [Shape.isRegular, Bool.and_eq_true] at hs
    exact ⟨(ih hs.2).1, fun _ h => Datum.noConfusion h⟩
  | @list s ds h ih =>
    rw [Shape.isRegular, Bool.and_eq_true] at hs
    have hds : ∀ d ∈ ds, ∃ fields, d = .struct fields ∧
        execute [] [] (plainStatements fields ++ fieldStatements fields) =
          some (plainTrees fields ++ tableTrees fields) := by
      intro d hd
      obtain ⟨fields, rfl⟩ := exists_fields_of_isStruct ((h d hd).isStruct_eq.trans hs.1)
      exact ⟨fields, rfl, (ih _ hd hs.2).2 fields rfl⟩
    exact ⟨fun ht _ cur _ hname => execute_list hds ht hname cur, fun _ h => Datum.noConfusion h⟩
  | @struct n layout fields hn h ih =>
    have hstruct := hs
    rw [Shape.isRegular_struct_iff] at hs
    have hfits : ∀ e ∈ fields, ∃ f, (f, e) ∈ layout.zip fields ∧ f.2.1.isRegular = true := by
      intro e he
      obtain ⟨f, hp, -⟩ := exists_mem_zip hn he
      exact ⟨f, hp, (hs.2.2 f (List.of_mem_zip hp).1).isRegular⟩
    have hfields : execute [] [] (plainStatements fields ++ fieldStatements fields) =
        some (plainTrees fields ++ tableTrees fields) := by
      refine execute_struct (fun e he ht cur es hname => ?_) (hn ▸ hs.1)
      obtain ⟨f, hp, hregular⟩ := hfits e he
      exact (ih _ hp hregular).1 ht e.1 cur es hname
    refine ⟨fun _ name cur es hname => ?_, ?_⟩
    · by_cases hplain : plainTrees fields = []
      · have hopens := exists_fieldStatements
          (fun e he ht => by
            obtain ⟨f, hp, hregular⟩ := hfits e he
            exact exists_tableStatements (h _ hp) hregular ht e.1)
          (exists_isTable (.struct hn h) hstruct hplain)
        exact execute_headless hplain hopens hfields hname cur
      · exact execute_headed hplain hfields hname cur
    · rintro fields' heq
      cases heq
      exact hfields

/-! ## Values as data -/

/-- The value stands for the datum: a structure may be a table of any origin. -/
def Stands : Datum → Toml → Prop
  | .struct fields, x => ∃ origin, x = .table origin (plainTrees fields ++ tableTrees fields)
  | .absent, _ => False
  | d, x => x = tree d

theorem stands_tree (h : d ≠ .absent) : Stands d (tree d) := by
  cases d with
  | struct fields => exact ⟨_, rfl⟩
  | absent => exact h rfl
  | _ => rfl

theorem forall₂_elements {ds : List Datum} (h : ∀ d ∈ ds, d.isStruct = true) :
    List.Forall₂ Stands ds ((elements ds).map (.table .header)) := by
  induction ds with
  | nil => exact .nil
  | cons d ds ih =>
    rw [List.forall_mem_cons] at h
    obtain ⟨fields, rfl⟩ := exists_fields_of_isStruct h.1
    exact .cons ⟨.header, rfl⟩ (ih h.2)

/-- A value is shown as the datum that it stands for. -/
theorem shows_stands (limit : Nat) : view.Shows limit Stands where
  text := by
    rintro s x rfl
    rfl
  number := by
    rintro n x - rfl
    rfl
  flag := by
    rintro b x rfl
    rfl
  choice := by
    rintro name x rfl
    rfl
  absent h := h.elim
  present := by
    rintro d x hd rfl
    refine ⟨tree d, rfl, stands_tree ?_⟩
    rintro rfl
    cases hd
  list := by
    rintro ds x hds rfl
    cases ds with
    | nil => exact ⟨[], rfl, .nil⟩
    | cons d ds =>
      refine ⟨(elements (d :: ds)).map (.table .header), ?_, forall₂_elements hds⟩
      simp [view, items?, tree]
  struct := by
    rintro fields x hn ⟨origin, rfl⟩
    have hentries := nodup_entries hn
    refine ⟨plainTrees fields ++ tableTrees fields, ?_, fun f hf => ?_⟩
    · refine View.select_eq_self hentries fun e he => ?_
      obtain ⟨f, hf, -, rfl⟩ := mem_entries_iff.1 he
      exact List.mem_map_of_mem hf
    · by_cases hd : f.2 = .absent
      · refine Or.inr ⟨List.lookup_eq_none_iff.2 fun e he => ?_, hd⟩
        obtain ⟨f', hf', hne, rfl⟩ := mem_entries_iff.1 he
        rw [bne_iff_ne]
        intro hname
        exact hne (List.inj_on_of_nodup_map hn hf hf' hname ▸ hd)
      · exact Or.inl ⟨tree f.2, lookup_eq_some_of_mem hentries
          (mem_entries_iff.2 ⟨f, hf, hd, rfl⟩), stands_tree hd⟩

/-! ## Whole texts -/

/-- A text without a byte order mark that is read as statements is parsed as what they make. -/
theorem parse_of_reads {cs : List Char} (h : Reads cs ss) : parse cs = assemble ss := by
  have hmark : withoutMark cs = cs := by
    unfold withoutMark
    split
    · exact absurd rfl h.head?_ne
    · rfl
  have hlen := h.length_le
  have hfuel : cs.length + 1 = cs.length - ss.length + 1 + ss.length := by omega
  have hend : ∀ size fuel, statements size (fuel + 1) [] = some [] := fun _ _ => rfl
  have hstatements : statements (cs.length + 1) (cs.length + 1) cs = some ss := by
    have hread := h.statements_append (cs.length + 1) (cs.length - ss.length + 1) []
      (Nat.lt_succ_self _)
    rw [← hfuel, List.append_nil, hend] at hread
    simpa using hread
  rw [parse, hmark]
  simp [hstatements]

/-- **TOML texts.** A structure is written, and the text is parsed as a table of its entries. -/
theorem exists_render (h : Fits (maxInteger + 1) s (.struct fields)) (hs : s.isRegular = true)
    (hdepth : s.depth ≤ maxDepth) : ∃ cs, render? (.struct fields) = some cs ∧
      parse cs = some (.table .header (plainTrees fields ++ tableTrees fields)) := by
  have hno : ∀ key ∈ ([] : List String), isWord key = true := by simp
  obtain ⟨plain, hplain, hlines, -⟩ := exists_plainFields (.of_fits h hs)
  obtain ⟨tables, htables, hreads⟩ := (exists_table h hs hno (by simpa using hdepth)).2 fields rfl
  have hunder : (fieldStatements fields).map (.under []) = fieldStatements fields := by
    rw [List.map_congr_left fun s _ => s.under_nil, List.map_id']
  rw [hunder] at hreads
  refine ⟨plain ++ tables, by rw [render?, hplain, htables]; rfl, ?_⟩
  rw [parse_of_reads (hlines.append hreads), assemble, (execute_table h hs).2 fields rfl]
  rfl

/-- **TOML reads back.** A structure of a regular shape, with numbers of 63 bits, is written, and the
text is read as the structure. -/
theorem exists_read?_render (h : Fits (maxInteger + 1) s (.struct fields))
    (hs : s.isRegular = true) (hdepth : s.depth ≤ maxDepth) :
    ∃ cs, render? (.struct fields) = some cs ∧ read? s cs = some (.struct fields) := by
  obtain ⟨cs, hcs, hparse⟩ := exists_render h hs hdepth
  refine ⟨cs, hcs, ?_⟩
  rw [read?, hparse]
  exact (shows_stands _).read?_eq_some h hs ⟨.header, rfl⟩

end TrackPlan.Toml
