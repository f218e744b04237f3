import TrackPlan.Proofs.Document.Fits
import TrackPlan.Proofs.Document.Toml.Text

/-!
# TOML lines read back

Each line that is written, a field or a header, is read as one statement, whatever follows on the
next lines (`Toml.Reads`). Lines that are read one by one are read one after the other
(`Toml.Reads.append`).
-/

namespace TrackPlan.Toml

variable {n size room fuel : Nat} {c : Char} {cs line rest : List Char} {name : String}
  {keys : List String}

/-! ## Numbers -/

theorem digits?_append (h : ∀ c ∈ cs, c.isDigit = true) (hne : cs ≠ [])
    (hrest : ∀ c ∈ rest.head?, c.isDigit = false ∧ c ≠ '_') :
    digits? Char.isDigit (cs ++ rest) = some (cs, rest) := by
  have hgo : ∀ (cs : List Char) (c : Char), (∀ d ∈ cs, d.isDigit = true) →
      digits?.go Char.isDigit c (cs ++ rest) = (c :: cs, rest) := by
    intro cs
    induction cs with
    | nil =>
      intro c _
      cases rest with
      | nil => rfl
      | cons d rest =>
        obtain ⟨hd, hline⟩ := hrest d rfl
        rw [List.nil_append, digits?.go.eq_2 _ _ _ _ (fun _ _ h => absurd h hline), hd]
        rfl
    | cons d cs ih =>
      intro c h
      rw [List.forall_mem_cons] at h
      have hline : d ≠ '_' := by
        rintro rfl
        cases h.1
      rw [List.cons_append, digits?.go.eq_2 _ _ _ _ (fun _ _ h => absurd h hline), if_pos h.1,
        ih d h.2]
  cases cs with
  | nil => exact absurd rfl hne
  | cons c cs =>
    rw [List.forall_mem_cons] at h
    rw [List.cons_append, digits?, if_pos h.1, hgo cs c h.2]

theorem sign_of_isDigit (h : c.isDigit = true) (cs : List Char) :
    sign (c :: cs) = (false, c :: cs) := by
  unfold sign
  split
  · next heq => rw [(List.cons.inj heq).1] at h; cases h
  · next heq => rw [(List.cons.inj heq).1] at h; cases h
  · rfl

/-- Only zero begins with a zero, so no mark of a base follows one. -/
theorem tail_of_ofNat {tail : List Char} (h : Text.ofNat n ++ '\n' :: rest = '0' :: tail) :
    Text.ofNat n = ['0'] ∧ tail = '\n' :: rest := by
  have hzero : Text.ofNat n = ['0'] := by
    apply Text.head?_ofNat
    rw [← List.head?_append_of_ne_nil _ (Text.ofNat_ne_nil n), h]
    rfl
  rw [hzero, List.singleton_append, List.cons.injEq] at h
  exact ⟨hzero, h.2.symm⟩

theorem wholeDigits?_ofNat (n : Nat) (rest : List Char) :
    wholeDigits? (Text.ofNat n ++ '\n' :: rest) = some (Text.ofNat n, '\n' :: rest) := by
  unfold wholeDigits?
  split
  · next heq => rw [(tail_of_ofNat heq).1, (tail_of_ofNat heq).2]
  · exact digits?_append (fun c => Text.isDigit_of_mem_ofNat) (Text.ofNat_ne_nil n) (by simp)

/-- The digits of a number are read as the number. -/
theorem number?_ofNat (h : n ≤ maxInteger) (rest : List Char) :
    number? (Text.ofNat n ++ '\n' :: rest) = some (.integer n, '\n' :: rest) := by
  obtain ⟨c, cs, hcs, hc⟩ := Text.exists_cons_ofNat n
  have hsign : sign (Text.ofNat n ++ '\n' :: rest) = (false, Text.ofNat n ++ '\n' :: rest) := by
    rw [hcs, List.cons_append, sign_of_isDigit hc]
  have hletter : ∀ m tail, m.isDigit = false → Text.ofNat n ++ '\n' :: rest ≠ m :: tail := by
    rintro m tail hm heq
    rw [hcs, List.cons_append, List.cons.injEq] at heq
    rw [← heq.1, hc] at hm
    cases hm
  have hrun : ∀ c ∈ Text.ofNat n, c.isDigit = true := fun c => Text.isDigit_of_mem_ofNat
  have hstop : ∀ c ∈ ('\n' :: rest).head?, c.isDigit = false := by simp
  have htimed : looksTimed (Text.ofNat n ++ '\n' :: rest) = false := by
    rw [looksTimed, Text.dropWhile_append_of_stop hrun hstop]
    rfl
  have hrange : inRange (n : Int) = true := by
    unfold maxInteger at h
    simp only [inRange, Bool.and_eq_true, decide_eq_true_eq]
    omega
  have hdecimal : decimal? (Text.ofNat n ++ '\n' :: rest) = some (.integer n, '\n' :: rest) := by
    have hfraction : fraction? ('\n' :: rest) = some ([], '\n' :: rest) := rfl
    have hexponent : exponent? ('\n' :: rest) = some (0, false, '\n' :: rest) := rfl
    rw [decimal?, hsign]
    simp [wholeDigits?_ofNat, hfraction, hexponent, Text.decimal_ofNat, integerIn, hrange]
  unfold number?
  split
  iterate 3
    next heq => exact absurd (tail_of_ofNat heq).2 (by simp)
  · rw [hsign]
    split
    · next heq => exact absurd heq (hletter _ _ (by decide))
    · next heq => exact absurd heq (hletter _ _ (by decide))
    · rw [htimed, if_neg Bool.false_ne_true, hdecimal]

/-! ## Values -/

/-- A text is read as a value at the end of a line. -/
structure ReadsValue (line : List Char) (x : Toml) : Prop where
  blanks_append : ∀ rest, blanks (line ++ rest) = line ++ rest
  value_append : ∀ size rest, 0 < size →
    value size maxDepth (line ++ '\n' :: rest) = some (x, '\n' :: rest)

theorem blanks_cons (h : c ≠ ' ' ∧ c ≠ '\t') : blanks (c :: cs) = c :: cs :=
  List.dropWhile_cons_of_neg (by simp [h])

/-- A value that is no array and no table in braces needs no room. -/
theorem value_leaf (h : c ≠ '[' ∧ c ≠ '\x7b') (cs : List Char) :
    value size room (c :: cs) =
      match c :: cs with
      | '"' :: _ | '\'' :: _ => (quoted? (c :: cs)).map fun (s, rest) => (.text s, rest)
      | 't' :: _ => ("true".toList.isPrefixOf? (c :: cs)).map (.bool true, ·)
      | 'f' :: _ => ("false".toList.isPrefixOf? (c :: cs)).map (.bool false, ·)
      | cs => number? cs := by
  rw [value.eq_def]
  split
  · next heq => exact absurd (List.cons.inj heq).1 h.1
  · next heq => exact absurd (List.cons.inj heq).1 h.2
  · next heq => exact absurd (List.cons.inj heq).1 h.1
  · next heq => exact absurd (List.cons.inj heq).1 h.2
  · rfl

theorem readsValue_quote (s : String) : ReadsValue (quote s) (.text s) := by
  obtain ⟨c, cs, hcs, hc⟩ : ∃ c cs, quote s = c :: cs ∧ (c = '"' ∨ c = '\'') := by
    rcases Quoting.choose_cases s.toList with h | h | ⟨h, -⟩ | ⟨h, -⟩
    iterate 2 exact ⟨'"', _, by rw [quote, h]; rfl, Or.inl rfl⟩
    iterate 2 exact ⟨'\'', _, by rw [quote, h]; rfl, Or.inr rfl⟩
  constructor
  · intro rest
    rw [hcs, List.cons_append]
    exact blanks_cons (by rcases hc with rfl | rfl <;> decide)
  · intro size rest _
    have hread := quoted?_quote s rest
    rw [hcs, List.cons_append] at hread ⊢
    rcases hc with rfl | rfl
    · rw [value_leaf (by decide), hread]
      rfl
    · rw [value_leaf (by decide), hread]
      rfl

theorem readsValue_ofNat (h : n ≤ maxInteger) : ReadsValue (Text.ofNat n) (.integer n) := by
  obtain ⟨c, cs, hcs, hc⟩ := Text.exists_cons_ofNat n
  have hdigit : ∀ m, m.isDigit = false → c ≠ m := by
    rintro m hm rfl
    rw [hc] at hm
    cases hm
  constructor
  · intro rest
    rw [hcs, List.cons_append]
    exact blanks_cons ⟨hdigit ' ' (by decide), hdigit '\t' (by decide)⟩
  · intro size rest _
    have hread := number?_ofNat h rest
    rw [hcs, List.cons_append] at hread ⊢
    rw [value_leaf ⟨hdigit '[' (by decide), hdigit '\x7b' (by decide)⟩]
    split
    · next heq => exact absurd (List.cons.inj heq).1 (hdigit '"' (by decide))
    · next heq => exact absurd (List.cons.inj heq).1 (hdigit '\'' (by decide))
    · next heq => exact absurd (List.cons.inj heq).1 (hdigit 't' (by decide))
    · next heq => exact absurd (List.cons.inj heq).1 (hdigit 'f' (by decide))
    · exact hread

theorem readsValue_flag (b : Bool) :
    ReadsValue (if b then "true" else "false").toList (.bool b) := by
  cases b
  · exact ⟨fun _ => rfl, fun size rest _ => rfl⟩
  · exact ⟨fun _ => rfl, fun size rest _ => rfl⟩

theorem readsValue_nil : ReadsValue ['[', ']'] (.array []) := by
  refine ⟨fun _ => rfl, fun size rest hsize => ?_⟩
  obtain ⟨size, rfl⟩ : ∃ n, size = n + 1 := ⟨size - 1, by omega⟩
  rfl

/-! ## Keys -/

theorem path_singleton (key : String) : path [key] = key.toList := by
  simp [path]

theorem path_cons (key next : String) (keys : List String) :
    path (key :: next :: keys) = key.toList ++ '.' :: path (next :: keys) := by
  simp [path]

theorem exists_head_of_isWord (h : isWord name = true) :
    ∃ c cs, name.toList = c :: cs ∧ (c.isAlpha || c == '_') = true := by
  rw [isWord] at h
  cases hname : name.toList with
  | nil => simp [hname] at h
  | cons c cs =>
    rw [hname, Bool.and_eq_true] at h
    exact ⟨c, cs, rfl, h.1⟩

/-- A word begins with no mark. -/
theorem ne_of_isWordHead (h : (c.isAlpha || c == '_') = true) :
    c ∉ [' ', '\t', '\n', '\r', '#', '"', '\'', '[', ']', '=', '.', '\uFEFF'] := by
  have hmarks : [' ', '\t', '\n', '\r', '#', '"', '\'', '[', ']', '=', '.', '\uFEFF'].all
      (fun m => !(m.isAlpha || m == '_')) = true := by decide
  intro hc
  have hno := List.all_eq_true.1 hmarks c hc
  rw [h] at hno
  cases hno

theorem isBareKey_of_isWord (h : isWord name = true) : ∀ c ∈ name.toList, isBareKey c = true := by
  have hword : ∀ c, Text.isWordChar c = true → isBareKey c = true := by
    intro c hc
    simp only [Text.isWordChar, isBareKey] at hc ⊢
    grind
  rw [isWord] at h
  intro c hc
  cases hname : name.toList with
  | nil => simp [hname] at h
  | cons d ds =>
    rw [hname] at h hc
    simp only [Bool.and_eq_true, List.all_eq_true] at h
    rcases List.mem_cons.1 hc with rfl | hc
    · apply hword
      have := h.1
      simp only [Text.isWordChar, Char.isAlphanum] at this ⊢
      grind
    · exact hword c (h.2 c hc)

/-- A word is read as a part of a key. -/
theorem keyPart?_append (h : isWord name = true)
    (hrest : ∀ c ∈ rest.head?, isBareKey c = false) :
    keyPart? (name.toList ++ rest) = some (name, rest) := by
  have hrun := isBareKey_of_isWord h
  obtain ⟨c, cs, hname, hc⟩ := exists_head_of_isWord h
  have hmark := ne_of_isWordHead hc
  unfold keyPart?
  split
  · next heq =>
    rw [hname, List.cons_append, List.cons.injEq] at heq
    exact absurd (by rw [heq.1]; decide) hmark
  · next heq =>
    rw [hname, List.cons_append, List.cons.injEq] at heq
    exact absurd (by rw [heq.1]; decide) hmark
  · rw [Text.takeWhile_append_of_stop hrun hrest, Text.dropWhile_append_of_stop hrun hrest]
    split
    · next heq => simp [hname] at heq
    · rw [String.ofList_toList]

theorem blanks_word (h : isWord name = true) (cs : List Char) :
    blanks (name.toList ++ cs) = name.toList ++ cs := by
  obtain ⟨c, more, hname, hc⟩ := exists_head_of_isWord h
  have hmark := ne_of_isWordHead hc
  simp only [List.mem_cons, not_or] at hmark
  rw [hname, List.cons_append]
  exact blanks_cons ⟨hmark.1, hmark.2.1⟩

/-- What may follow a path of keys. -/
def EndsPath (rest : List Char) : Prop :=
  (∀ c ∈ rest.head?, isBareKey c = false) ∧ ∀ c ∈ (blanks rest).head?, c ≠ '.'

/-- A path is read as its keys, with the blanks that follow. -/
theorem keyParts?_path (hne : keys ≠ []) (hw : ∀ key ∈ keys, isWord key = true)
    (hf : keys.length ≤ fuel) (hrest : EndsPath rest) :
    keyParts? fuel (path keys ++ rest) = some (keys, blanks rest) := by
  induction keys generalizing fuel with
  | nil => exact absurd rfl hne
  | cons key keys ih =>
    rw [List.length_cons] at hf
    rw [List.forall_mem_cons] at hw
    obtain ⟨fuel, rfl⟩ : ∃ f, fuel = f + 1 := ⟨fuel - 1, by omega⟩
    cases keys with
    | nil =>
      rw [path_singleton, keyParts?, blanks_word hw.1, keyPart?_append hw.1 hrest.1]
      simp only [Option.bind_eq_bind, Option.bind_some]
      split
      · next heq => exact absurd rfl (hrest.2 '.' (by rw [heq]; rfl))
      · rfl
    | cons next keys =>
      have hdot : ∀ cs, blanks ('.' :: cs) = '.' :: cs := fun _ => rfl
      rw [path_cons, List.append_assoc, List.cons_append, keyParts?, blanks_word hw.1,
        keyPart?_append hw.1 (by simp; decide)]
      simp [hdot, ih (List.cons_ne_nil _ _) hw.2 (by omega : _ ≤ fuel)]

theorem exists_head_path (hne : keys ≠ []) (hw : ∀ key ∈ keys, isWord key = true) :
    ∃ c cs, path keys = c :: cs ∧ (c.isAlpha || c == '_') = true := by
  cases keys with
  | nil => exact absurd rfl hne
  | cons key keys =>
    obtain ⟨c, cs, hname, hc⟩ := exists_head_of_isWord (hw key List.mem_cons_self)
    cases keys with
    | nil => exact ⟨c, cs, by rw [path_singleton, hname], hc⟩
    | cons next keys => exact ⟨c, _, by rw [path_cons, hname, List.cons_append], hc⟩

theorem length_le_path (hw : ∀ key ∈ keys, isWord key = true) :
    keys.length ≤ (path keys).length := by
  induction keys with
  | nil => exact Nat.zero_le _
  | cons key keys ih =>
    rw [List.forall_mem_cons] at hw
    obtain ⟨c, cs, hname, -⟩ := exists_head_of_isWord hw.1
    have hkeys := ih hw.2
    cases keys with
    | nil => rw [path_singleton, hname]; simp
    | cons next keys =>
      rw [path_cons, hname]
      simp only [List.length_append, List.length_cons] at hkeys ⊢
      omega

theorem key?_path (hne : keys ≠ []) (hw : ∀ key ∈ keys, isWord key = true)
    (hdepth : keys.length ≤ maxDepth) (hf : keys.length ≤ fuel) (hrest : EndsPath rest) :
    key? fuel (path keys ++ rest) = some (keys, blanks rest) := by
  rw [key?, keyParts?_path hne hw hf hrest, Option.filter_some, if_pos (by simpa using hdepth)]

/-! ## Statements -/

/-- A text is read as statements, whatever follows on the next lines. -/
structure Reads (cs : List Char) (ss : List Statement) : Prop where
  head?_ne : cs.head? ≠ some '\uFEFF'
  length_le : ss.length ≤ cs.length
  statements_append : ∀ size fuel rest, cs.length < size →
    statements size (fuel + ss.length) (cs ++ rest) = (ss ++ ·) <$> statements size fuel rest

theorem Reads.nil : Reads [] [] where
  head?_ne := by simp
  length_le := Nat.le_refl 0
  statements_append size fuel rest _ := by simp

/-- Texts that follow each other are read as statements that do. -/
theorem Reads.append {cs' : List Char} {ss ss' : List Statement} (h : Reads cs ss)
    (h' : Reads cs' ss') : Reads (cs ++ cs') (ss ++ ss') where
  head?_ne := by
    cases cs with
    | nil => exact h'.head?_ne
    | cons c cs => exact h.head?_ne
  length_le := by
    rw [List.length_append, List.length_append]
    exact Nat.add_le_add h.length_le h'.length_le
  statements_append size fuel rest hsize := by
    rw [List.length_append] at hsize
    rw [List.length_append, Nat.add_comm ss.length, ← Nat.add_assoc, List.append_assoc,
      h.statements_append size _ _ (by omega), h'.statements_append size _ _ (by omega)]
    cases statements size fuel rest <;> simp

/-- A line is read as the statement on it. -/
theorem reads_line {s : Statement} (hhead : cs.head? ≠ some '\uFEFF')
    (h : ∀ size rest, cs.length < size → ∃ c more, space (cs ++ rest) = c :: more ∧
      statement? size (c :: more) = some (s, '\n' :: rest)) : Reads cs [s] where
  head?_ne := hhead
  length_le := by
    obtain ⟨c, more, hspace, -⟩ := h (cs.length + 1) [] (Nat.lt_succ_self _)
    cases cs with
    | nil => cases hspace
    | cons c cs => simp
  statements_append size fuel rest hsize := by
    obtain ⟨c, more, hspace, hs⟩ := h size rest hsize
    have hend : lineEnd? ('\n' :: rest) = some rest := rfl
    rw [List.length_singleton, statements, hspace]
    simp only [hs, Option.bind_eq_bind, Option.bind_some, hend]
    cases statements size fuel rest <;> rfl

theorem space_cons (h : c ∉ [' ', '\t', '\n', '\r', '#']) : space (c :: cs) = c :: cs := by
  simp only [List.mem_cons, List.not_mem_nil, or_false, not_or] at h
  rw [space, spaceFrom.eq_6 _ _ (by simp [h]) (by simp [h]) (by simp [h]), if_neg (by simp [h])]

/-- A field on a line is read as an entry. -/
theorem reads_entry {x : Toml} (hname : isWord name = true) (hline : ReadsValue line x) :
    Reads (name.toList ++ [' ', '=', ' '] ++ line ++ ['\n']) [.entry [name] x] := by
  obtain ⟨c, cs, hcs, hc⟩ := exists_head_of_isWord hname
  have hmark := ne_of_isWordHead hc
  simp only [List.mem_cons, List.not_mem_nil, or_false, not_or] at hmark
  apply reads_line
  · simp [hcs, hmark]
  · intro size rest hsize
    have htext : name.toList ++ [' ', '=', ' '] ++ line ++ ['\n'] ++ rest =
        path [name] ++ ' ' :: '=' :: ' ' :: (line ++ '\n' :: rest) := by
      simp [path_singleton]
    have hends : EndsPath (' ' :: '=' :: ' ' :: (line ++ '\n' :: rest)) :=
      ⟨by simp; decide, by simp [blanks]⟩
    have hfuel : [name].length ≤ size := by
      simp at hsize ⊢
      omega
    have hkey := key?_path (List.cons_ne_nil name []) (by simpa using hname)
      (by simp [maxDepth]) hfuel hends
    have hequal : blanks (' ' :: '=' :: ' ' :: (line ++ '\n' :: rest)) =
        '=' :: ' ' :: (line ++ '\n' :: rest) := rfl
    have hblanks : blanks (' ' :: (line ++ '\n' :: rest)) = line ++ '\n' :: rest :=
      hline.blanks_append ('\n' :: rest)
    rw [htext]
    rw [path_singleton, hcs, List.cons_append] at hkey ⊢
    refine ⟨c, _, space_cons (by simp [hmark]), ?_⟩
    unfold statement?
    split
    · next heq => exact absurd (List.cons.inj heq).1 (by simp [hmark])
    · next heq => exact absurd (List.cons.inj heq).1 (by simp [hmark])
    · simp [hkey, hequal, hblanks, hline.value_append size rest (by omega)]

theorem endsPath_bracket (rest : List Char) : EndsPath (']' :: rest) :=
  ⟨by simp; decide, by simp [blanks]⟩

/-- A header is read as one. -/
theorem reads_header (hne : keys ≠ []) (hw : ∀ key ∈ keys, isWord key = true)
    (hdepth : keys.length ≤ maxDepth) :
    Reads ('\n' :: '[' :: path keys ++ [']', '\n']) [.header keys] := by
  apply reads_line (by simp)
  intro size rest hsize
  have hlen := length_le_path hw
  have hfuel : keys.length ≤ size := by
    simp at hsize
    omega
  have hkey := key?_path hne hw hdepth hfuel (endsPath_bracket ('\n' :: rest))
  have hbracket : blanks (']' :: '\n' :: rest) = ']' :: '\n' :: rest := rfl
  have htext : '\n' :: '[' :: path keys ++ [']', '\n'] ++ rest =
      '\n' :: '[' :: (path keys ++ ']' :: '\n' :: rest) := by simp
  obtain ⟨c, cs, hcs, hc⟩ := exists_head_path hne hw
  have hmark := ne_of_isWordHead hc
  simp only [List.mem_cons, List.not_mem_nil, or_false, not_or] at hmark
  refine ⟨'[', path keys ++ ']' :: '\n' :: rest, by rw [htext]; rfl, ?_⟩
  unfold statement?
  split
  · next heq =>
    rw [hcs] at heq
    simp [hmark] at heq
  · next heq =>
    rw [← (List.cons.inj heq).2]
    simp [hkey, hbracket]
  · next h => exact absurd rfl (h _)

/-- A header of an array of tables is read as one. -/
theorem reads_element (hne : keys ≠ []) (hw : ∀ key ∈ keys, isWord key = true)
    (hdepth : keys.length ≤ maxDepth) :
    Reads ('\n' :: '[' :: '[' :: path keys ++ [']', ']', '\n']) [.element keys] := by
  apply reads_line (by simp)
  intro size rest hsize
  have hlen := length_le_path hw
  have hfuel : keys.length ≤ size := by
    simp at hsize
    omega
  have hkey := key?_path hne hw hdepth hfuel (endsPath_bracket (']' :: '\n' :: rest))
  have hbracket : blanks (']' :: ']' :: '\n' :: rest) = ']' :: ']' :: '\n' :: rest := rfl
  have htext : '\n' :: '[' :: '[' :: path keys ++ [']', ']', '\n'] ++ rest =
      '\n' :: '[' :: '[' :: (path keys ++ ']' :: ']' :: '\n' :: rest) := by simp
  refine ⟨'[', '[' :: (path keys ++ ']' :: ']' :: '\n' :: rest), by rw [htext]; rfl, ?_⟩
  simp [statement?, hkey, hbracket]

end TrackPlan.Toml
