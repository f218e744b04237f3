import TrackPlan.Document.Json.Reader
import TrackPlan.Document.Json.Writer
import TrackPlan.Proofs.Document.Fits
import TrackPlan.Proofs.Text.Numeral

/-!
# JSON reads back

What is written of a datum is parsed as the tree of the datum, whatever its shape is
(`Json.parse_render`), and the tree is read as the datum by every regular shape that the datum fits
(`Json.read?_render`).
-/

namespace TrackPlan.Json

variable {level k fuel n : Nat} {c : Char} {cs tail rest : List Char} {ps : List Piece} {d : Datum}

/-! ## Texts -/

theorem pieces_short {e : Char} (h : shortEscape? e = some c) (hu : e ≠ 'u') :
    pieces ('\\' :: e :: tail) = (pieces tail).map fun p => (.char c :: p.1, p.2) := by
  rw [pieces.eq_4 _ _ (by simpa using fun _ _ _ _ _ h => absurd h hu)]
  cases pieces tail <;> simp [h]

theorem pieces_unit {a b x y : Char} (h : hex4? a b x y = some n) :
    pieces ('\\' :: 'u' :: a :: b :: x :: y :: tail) =
      (pieces tail).map fun p => (.unit n :: p.1, p.2) := by
  rw [pieces]
  cases pieces tail <;> simp [h]

theorem pieces_plain (hquote : c ≠ '"') (hslash : c ≠ '\\') (hlow : ¬ c.toNat < 0x20) :
    pieces (c :: tail) = (pieces tail).map fun p => (.char c :: p.1, p.2) := by
  rw [pieces.eq_5 _ _ hquote (fun _ _ _ _ _ h => absurd h hslash) (fun _ _ h => absurd h hslash),
    if_neg (not_or.2 ⟨hlow, hslash⟩)]
  cases pieces tail <;> rfl

theorem assemble_unit (h : n < 0xD800) :
    assemble (.unit n :: ps) = (Char.ofNat n :: ·) <$> assemble ps := by
  have hhigh : ¬ (0xD800 ≤ n ∧ n < 0xDC00) := by omega
  have hlow : ¬ (0xDC00 ≤ n ∧ n < 0xE000) := by omega
  conv_lhs => unfold assemble
  rw [if_neg hhigh, if_neg hlow]

/-- An escaped character is a piece that stands for the character. -/
theorem exists_piece (c : Char) : ∃ p,
    (∀ tail, pieces (escape c ++ tail) = (pieces tail).map fun q => (p :: q.1, q.2)) ∧
      ∀ ps, assemble (p :: ps) = (c :: ·) <$> assemble ps := by
  unfold escape
  split
  · exact ⟨.char '"', fun _ => pieces_short rfl (by decide), fun _ => rfl⟩
  · exact ⟨.char '\\', fun _ => pieces_short rfl (by decide), fun _ => rfl⟩
  · exact ⟨.char '\x08', fun _ => pieces_short rfl (by decide), fun _ => rfl⟩
  · exact ⟨.char '\x0c', fun _ => pieces_short rfl (by decide), fun _ => rfl⟩
  · exact ⟨.char '\n', fun _ => pieces_short rfl (by decide), fun _ => rfl⟩
  · exact ⟨.char '\r', fun _ => pieces_short rfl (by decide), fun _ => rfl⟩
  · exact ⟨.char '\t', fun _ => pieces_short rfl (by decide), fun _ => rfl⟩
  · next hquote hslash _ _ _ _ _ =>
    split
    · next hlow =>
      have hhex : hex4? '0' '0' (Nat.digitChar (c.toNat / 16)) (Nat.digitChar (c.toNat % 16)) =
          some c.toNat := by
        have hzero : Text.hexValue? '0' = some 0 := rfl
        simp only [hex4?, hzero, Text.hexValue?_digitChar (n := c.toNat / 16) (by omega),
          Text.hexValue?_digitChar (n := c.toNat % 16) (by omega)]
        simp
        omega
      refine ⟨.unit c.toNat, fun _ => pieces_unit hhex, fun ps => ?_⟩
      rw [assemble_unit (by omega), Char.ofNat_toNat]
    · next hlow => exact ⟨.char c, fun _ => pieces_plain hquote hslash hlow, fun _ => rfl⟩

/-- A text in quotes is read up to the closing one. -/
theorem string_quote (s : String) (rest : List Char) :
    string (s.toList.flatMap escape ++ '"' :: rest) = some (some s, rest) := by
  suffices h : ∀ cs : List Char, ∃ ps, pieces (cs.flatMap escape ++ '"' :: rest) = some (ps, rest) ∧
      assemble ps = some cs by
    obtain ⟨ps, hps, hcs⟩ := h s.toList
    simp [string, hps, hcs]
  intro cs
  induction cs with
  | nil => exact ⟨[], rfl, rfl⟩
  | cons c cs ih =>
    obtain ⟨ps, hps, hcs⟩ := ih
    obtain ⟨p, hp, hc⟩ := exists_piece c
    refine ⟨p :: ps, ?_, by rw [hc, hcs]; rfl⟩
    rw [List.flatMap_cons, List.append_assoc, hp, hps]
    rfl

theorem quote_append (s : String) (cs : List Char) :
    quote s ++ cs = '"' :: (s.toList.flatMap escape ++ '"' :: cs) := by
  simp [quote]

/-! ## Numbers -/

/-- What may follow a value: the end of the text, a comma or a new line. -/
def Ends (rest : List Char) : Prop := ∀ c ∈ rest.head?, c = ',' ∨ c = '\n'

theorem Ends.head?_eq_false {p : Char → Bool} (h : Ends rest) (hcomma : p ',' = false)
    (hline : p '\n' = false) : ∀ c ∈ rest.head?, p c = false := by
  intro c hc
  rcases h c hc with rfl | rfl
  · exact hcomma
  · exact hline

theorem fraction_of_ends (h : Ends rest) : fraction rest = some (false, rest) := by
  unfold fraction
  split
  · rcases h '.' rfl with h | h <;> cases h
  · rfl

theorem exponent_of_ends (h : Ends rest) : exponent rest = some (false, rest) := by
  unfold exponent
  split
  · rcases h 'e' rfl with h | h <;> cases h
  · rcases h 'E' rfl with h | h <;> cases h
  · rfl

/-- The digits of a number are read as the number. -/
theorem unsigned_ofNat (n : Nat) (h : Ends rest) :
    unsigned false (Text.ofNat n ++ rest) = some (.number (some n), rest) := by
  have hstop : ∀ c ∈ rest.head?, c.isDigit = false := h.head?_eq_false (by decide) (by decide)
  have hrun : ∀ c ∈ Text.ofNat n, c.isDigit = true := fun c => Text.isDigit_of_mem_ofNat
  have hdigits : digits (Text.ofNat n ++ rest) = some (Text.ofNat n, rest) := by
    unfold digits
    rw [Text.takeWhile_append_of_stop hrun hstop, Text.dropWhile_append_of_stop hrun hstop]
    split
    · next hnil => exact absurd hnil (Text.ofNat_ne_nil n)
    · rfl
  have hfront : ¬ (1 < (Text.ofNat n).length ∧ (Text.ofNat n).head? = some '0') := by
    rintro ⟨hlen, hzero⟩
    rw [Text.head?_ofNat hzero] at hlen
    exact absurd hlen (by decide)
  simp [unsigned, hdigits, hfront, fraction_of_ends h, exponent_of_ends h, Text.decimal_ofNat]

/-! ## Values -/

mutual

/-- The tree of a datum. -/
def tree : Datum → Json
  | .text s => .text (some s)
  | .number n => .number (some n)
  | .flag b => .bool b
  | .choice name => .text (some name)
  | .absent => .null
  | .present d => tree d
  | .list items => .array (trees items)
  | .struct fields => .object (fieldTrees fields)

/-- The trees of items. -/
def trees : List Datum → List Json
  | [] => []
  | d :: items => tree d :: trees items

/-- The members of fields. -/
def fieldTrees : List (String × Datum) → List (Option String × Json)
  | [] => []
  | (name, d) :: fields => (some name, tree d) :: fieldTrees fields

end

/-- Characters that a value begins with. -/
def isHead (c : Char) : Bool := !isSpace c && c != ']' && c != '\x7d'

/-- What is written of a datum begins with a value. -/
theorem exists_head (level : Nat) (d : Datum) :
    ∃ c cs, write level d = c :: cs ∧ isHead c = true := by
  match d with
  | .text s => exact ⟨'"', _, rfl, rfl⟩
  | .number n =>
    obtain ⟨c, cs, h, hc⟩ := Text.exists_cons_ofNat n
    exact ⟨c, cs, h, Text.all_digits rfl hc⟩
  | .flag true => exact ⟨'t', _, rfl, rfl⟩
  | .flag false => exact ⟨'f', _, rfl, rfl⟩
  | .choice name => exact ⟨'"', _, rfl, rfl⟩
  | .absent => exact ⟨'n', _, rfl, rfl⟩
  | .present d => exact exists_head level d
  | .list [] => exact ⟨'[', _, rfl, rfl⟩
  | .list (_ :: _) => exact ⟨'[', _, rfl, rfl⟩
  | .struct [] => exact ⟨'\x7b', _, rfl, rfl⟩
  | .struct (_ :: _) => exact ⟨'\x7b', _, rfl, rfl⟩

theorem skip_of_isHead (h : isHead c = true) : skip (c :: cs) = c :: cs := by
  rw [isHead, Bool.and_eq_true, Bool.and_eq_true, Bool.not_eq_true'] at h
  rw [skip, List.dropWhile_cons_of_neg (by rw [h.1.1]; decide)]

theorem skip_newline (level : Nat) (cs : List Char) : skip (newline level ++ cs) = skip cs := by
  have hspace : ∀ n, skip (List.replicate n ' ' ++ cs) = skip cs := by
    intro n
    induction n with
    | zero => rfl
    | succ n ih =>
      rw [List.replicate_succ, List.cons_append, skip, List.dropWhile_cons_of_pos (by decide)]
      exact ih
  rw [newline, List.cons_append, skip, List.dropWhile_cons_of_pos (by decide)]
  exact hspace _

/-- Nothing of a value is skipped. -/
theorem skip_write (level : Nat) (d : Datum) (cs : List Char) :
    skip (write level d ++ cs) = write level d ++ cs := by
  obtain ⟨c, more, h, hc⟩ := exists_head level d
  rw [h, List.cons_append, skip_of_isHead hc]

theorem skip_quote (s : String) (cs : List Char) : skip (quote s ++ cs) = quote s ++ cs := by
  rw [quote_append, skip_of_isHead rfl]

theorem skip_of_comma (cs : List Char) : skip (',' :: cs) = ',' :: cs := rfl

theorem value_of_isDigit (h : c.isDigit = true) :
    value (fuel + 1) (c :: cs) = unsigned false (c :: cs) := by
  have hc := Text.mem_of_isDigit h
  simp only [List.mem_cons, List.not_mem_nil, or_false] at hc
  rcases hc with rfl | rfl | rfl | rfl | rfl | rfl | rfl | rfl | rfl | rfl <;> rfl

/-- What follows an item of an array. -/
def itemsRest (fuel : Nat) (cs : List Char) : Option (List Json × List Char) :=
  match skip cs with
  | ']' :: rest => some ([], rest)
  | ',' :: rest => items fuel (skip rest)
  | _ => none

theorem items_eq_some {x : Json} {xs : List Json} {more : List Char}
    (hx : value fuel cs = some (x, more)) (hxs : itemsRest fuel more = some (xs, rest)) :
    items (fuel + 1) cs = some (x :: xs, rest) := by
  unfold itemsRest at hxs
  split at hxs
  · next heq =>
    cases hxs
    rw [items, hx]
    simp only [Option.bind_eq_bind, Option.bind_some, heq]
    rfl
  · next heq =>
    rw [items, hx]
    simp only [Option.bind_eq_bind, Option.bind_some, heq, hxs]
    rfl
  · cases hxs

/-- What follows a member of an object. -/
def membersRest (fuel : Nat) (cs : List Char) :
    Option (List (Option String × Json) × List Char) :=
  match skip cs with
  | '\x7d' :: rest => some ([], rest)
  | ',' :: rest => members fuel (skip rest)
  | _ => none

theorem members_eq_some {s : String} {x : Json} {xs : List (Option String × Json)}
    {more : List Char} (hx : value fuel (skip cs) = some (x, more))
    (hxs : membersRest fuel more = some (xs, rest)) :
    members (fuel + 1) (quote s ++ ':' :: ' ' :: cs) = some ((some s, x) :: xs, rest) := by
  have hcolon : skip (':' :: ' ' :: cs) = ':' :: ' ' :: cs := rfl
  have hblank : skip (' ' :: cs) = skip cs := rfl
  unfold membersRest at hxs
  split at hxs
  · next heq =>
    cases hxs
    rw [quote_append, members, string_quote]
    simp only [Option.bind_eq_bind, Option.bind_some, hcolon, hblank, hx, heq]
    rfl
  · next heq =>
    rw [quote_append, members, string_quote]
    simp only [Option.bind_eq_bind, Option.bind_some, hcolon, hblank, hx, heq, hxs]
    rfl
  · cases hxs

theorem ends_writeItems (ds : List Datum) (rest : List Char) :
    Ends (writeItems level ds ++ (newline k ++ rest)) := by
  cases ds <;> simp [writeItems, newline, Ends]

theorem ends_writeFields (fs : List (String × Datum)) (rest : List Char) :
    Ends (writeFields level fs ++ (newline k ++ rest)) := by
  cases fs <;> simp [writeFields, newline, Ends]

/-- An array that is not empty is its items. -/
theorem value_array {xs : List Json} (hc : isHead c = true)
    (h : items fuel (c :: cs) = some (xs, rest)) :
    value (fuel + 1) ('[' :: (newline level ++ c :: cs)) = some (.array xs, rest) := by
  rw [value, skip_newline, skip_of_isHead hc]
  split
  · next heq =>
    cases heq
    cases hc
  · rw [h]
    rfl

/-- An object that is not empty is its members. -/
theorem value_object {s : String} {xs : List (Option String × Json)}
    (h : members fuel (quote s ++ cs) = some (xs, rest)) :
    value (fuel + 1) ('\x7b' :: (newline level ++ (quote s ++ cs))) = some (.object xs, rest) := by
  rw [quote_append] at h ⊢
  rw [value, skip_newline, skip_of_isHead rfl]
  split
  · next heq => simp at heq
  · rw [h]
    rfl

mutual

/-- What is written of a datum is read as its tree. -/
theorem value_write (level : Nat) (d : Datum) (fuel : Nat) (rest : List Char)
    (hf : 2 * (write level d ++ rest).length < fuel) (hr : Ends rest) :
    value fuel (write level d ++ rest) = some (tree d, rest) := by
  obtain ⟨fuel, rfl⟩ : ∃ f, fuel = f + 1 := ⟨fuel - 1, by omega⟩
  match d with
  | .text s =>
    rw [write, quote_append, value, string_quote]
    rfl
  | .number n =>
    obtain ⟨c, cs, h, hc⟩ := Text.exists_cons_ofNat n
    have hread := unsigned_ofNat n hr
    rw [write, h, List.cons_append, value_of_isDigit hc, ← List.cons_append, ← h, hread, tree]
  | .flag true => rfl
  | .flag false => rfl
  | .choice name =>
    rw [write, quote_append, value, string_quote]
    rfl
  | .absent => rfl
  | .present d =>
    rw [write] at hf ⊢
    rw [value_write level d (fuel + 1) rest hf hr, tree]
  | .list [] => rfl
  | .list (d :: ds) =>
    have hcs : write level (.list (d :: ds)) ++ rest = '[' :: (newline (level + 1) ++
        (write (level + 1) d ++ (writeItems (level + 1) ds ++ (newline level ++ ']' :: rest)))) := by
      simp [write]
    rw [hcs] at hf ⊢
    obtain ⟨fuel, rfl⟩ : ∃ f, fuel = f + 1 := ⟨fuel - 1, by simp at hf; omega⟩
    simp only [List.length_cons, List.length_append] at hf
    obtain ⟨c, more, hhead, hc⟩ := exists_head (level + 1) d
    have hx := value_write (level + 1) d fuel
      (writeItems (level + 1) ds ++ (newline level ++ ']' :: rest))
      (by simp only [List.length_append, List.length_cons]; omega) (ends_writeItems ds _)
    have hxs := itemsRest_writeItems (level + 1) ds level fuel rest
      (by simp only [List.length_append, List.length_cons]; omega)
    have hitems := items_eq_some hx hxs
    rw [hhead, List.cons_append] at hitems ⊢
    rw [value_array hc hitems]
    rfl
  | .struct [] => rfl
  | .struct ((name, d) :: fs) =>
    have hcs : write level (.struct ((name, d) :: fs)) ++ rest = '\x7b' :: (newline (level + 1) ++
        (quote name ++ ':' :: ' ' :: (write (level + 1) d ++
          (writeFields (level + 1) fs ++ (newline level ++ '\x7d' :: rest))))) := by
      simp [write]
    rw [hcs] at hf ⊢
    obtain ⟨fuel, rfl⟩ : ∃ f, fuel = f + 1 := ⟨fuel - 1, by simp at hf; omega⟩
    simp only [List.length_cons, List.length_append] at hf
    have hx := value_write (level + 1) d fuel
      (writeFields (level + 1) fs ++ (newline level ++ '\x7d' :: rest))
      (by simp only [List.length_append, List.length_cons]; omega) (ends_writeFields fs _)
    have hxs := membersRest_writeFields (level + 1) fs level fuel rest
      (by simp only [List.length_append, List.length_cons]; omega)
    rw [← skip_write] at hx
    rw [value_object (members_eq_some hx hxs)]
    rfl

/-- What is written of the items after the first is read as their trees. -/
theorem itemsRest_writeItems (level : Nat) (ds : List Datum) (k fuel : Nat) (rest : List Char)
    (hf : 2 * (writeItems level ds ++ (newline k ++ ']' :: rest)).length < fuel) :
    itemsRest fuel (writeItems level ds ++ (newline k ++ ']' :: rest)) = some (trees ds, rest) := by
  match ds with
  | [] =>
    rw [writeItems, List.nil_append, itemsRest, skip_newline]
    rfl
  | d :: ds =>
    have hcs : writeItems level (d :: ds) ++ (newline k ++ ']' :: rest) = ',' :: (newline level ++
        (write level d ++ (writeItems level ds ++ (newline k ++ ']' :: rest)))) := by
      simp [writeItems]
    rw [hcs] at hf ⊢
    simp only [List.length_cons, List.length_append] at hf
    obtain ⟨fuel, rfl⟩ : ∃ f, fuel = f + 1 := ⟨fuel - 1, by omega⟩
    have hx := value_write level d fuel (writeItems level ds ++ (newline k ++ ']' :: rest))
      (by simp only [List.length_append, List.length_cons]; omega) (ends_writeItems ds _)
    have hxs := itemsRest_writeItems level ds k fuel rest
      (by simp only [List.length_append, List.length_cons]; omega)
    rw [itemsRest, skip_of_comma]
    show items (fuel + 1) (skip (newline level ++ _)) = _
    rw [skip_newline, skip_write, items_eq_some hx hxs, trees]

/-- What is written of the fields after the first is read as their members. -/
theorem membersRest_writeFields (level : Nat) (fs : List (String × Datum)) (k fuel : Nat)
    (rest : List Char)
    (hf : 2 * (writeFields level fs ++ (newline k ++ '\x7d' :: rest)).length < fuel) :
    membersRest fuel (writeFields level fs ++ (newline k ++ '\x7d' :: rest)) =
      some (fieldTrees fs, rest) := by
  match fs with
  | [] =>
    rw [writeFields, List.nil_append, membersRest, skip_newline]
    rfl
  | (name, d) :: fs =>
    have hcs : writeFields level ((name, d) :: fs) ++ (newline k ++ '\x7d' :: rest) =
        ',' :: (newline level ++ (quote name ++ ':' :: ' ' :: (write level d ++
          (writeFields level fs ++ (newline k ++ '\x7d' :: rest))))) := by
      simp [writeFields]
    rw [hcs] at hf ⊢
    simp only [List.length_cons, List.length_append] at hf
    obtain ⟨fuel, rfl⟩ : ∃ f, fuel = f + 1 := ⟨fuel - 1, by omega⟩
    have hx := value_write level d fuel (writeFields level fs ++ (newline k ++ '\x7d' :: rest))
      (by simp only [List.length_append, List.length_cons]; omega) (ends_writeFields fs _)
    have hxs := membersRest_writeFields level fs k fuel rest
      (by simp only [List.length_append, List.length_cons]; omega)
    rw [← skip_write] at hx
    rw [membersRest, skip_of_comma]
    show members (fuel + 1) (skip (newline level ++ _)) = _
    rw [skip_newline, skip_quote, members_eq_some hx hxs, fieldTrees]

end

/-- **JSON texts.** What is written of a datum is parsed as its tree. -/
theorem parse_render (d : Datum) : parse (render d) = some (tree d) := by
  have hread := value_write 0 d (2 * (render d).length + 2) []
    (by rw [List.append_nil]; unfold render; omega) (by simp [Ends])
  rw [List.append_nil] at hread
  obtain ⟨c, cs, h, hc⟩ := exists_head 0 d
  rw [parse, render, h, skip_of_isHead hc, ← h]
  unfold render at hread
  rw [hread]
  rfl

/-! ## Trees as data -/

theorem namedMembers_fieldTrees (fs : List (String × Datum)) :
    namedMembers (fieldTrees fs) = some (fs.map fun f => (f.1, tree f.2)) := by
  unfold namedMembers
  induction fs with
  | nil => rfl
  | cons f fs ih =>
    obtain ⟨name, d⟩ := f
    rw [fieldTrees, List.mapM_cons, ih]
    rfl

theorem forall₂_trees (ds : List Datum) : List.Forall₂ (fun d x => x = tree d) ds (trees ds) := by
  induction ds with
  | nil => exact .nil
  | cons d ds ih => exact .cons rfl ih

theorem tree_ne_null (h : d.isOptional = false) : tree d ≠ .null := by
  cases d <;> simp [tree, Datum.isOptional] at h ⊢

theorem option?_eq_some {x : Json} (h : x ≠ .null) : view.option? x = some (some x) := by
  cases x <;> first | rfl | exact absurd rfl h

/-- A tree is shown as the datum of which it is the tree. -/
theorem shows_tree (limit : Nat) : view.Shows limit fun d x => x = tree d where
  text h := h ▸ rfl
  number _ h := h ▸ rfl
  flag h := h ▸ rfl
  choice h := h ▸ rfl
  absent h := h ▸ rfl
  present := by
    rintro d x hd rfl
    exact ⟨tree d, option?_eq_some (tree_ne_null (d := d) hd), rfl⟩
  list := by
    rintro ds x - rfl
    exact ⟨trees ds, rfl, forall₂_trees ds⟩
  struct := by
    rintro fields x hn rfl
    have hnames : (fields.map fun f => (f.1, tree f.2)).map Prod.fst = fields.map Prod.fst := by
      rw [List.map_map]
      rfl
    refine ⟨fields.map fun f => (f.1, tree f.2), ?_, fun f hf => Or.inl ⟨tree f.2, ?_, rfl⟩⟩
    · show (namedMembers (fieldTrees fields)).bind (View.select _) = _
      rw [namedMembers_fieldTrees, Option.bind_some, ← hnames, View.select_eq_self (hnames ▸ hn)]
      exact fun e he => List.mem_map_of_mem he
    · exact lookup_eq_some_of_mem (hnames ▸ hn) (List.mem_map_of_mem hf)

/-- **JSON reads back.** What is written of a datum of a regular shape is read as the datum. -/
theorem read?_render {limit : Nat} {s : Shape} (h : Fits limit s d) (hs : s.isRegular = true) :
    read? s (render d) = some d := by
  rw [read?, parse_render]
  exact (shows_tree limit).read?_eq_some h hs rfl

end TrackPlan.Json
