import TrackPlan.Document.Ron.Reader
import TrackPlan.Document.Ron.Writer
import TrackPlan.Proofs.Document.Fits
import TrackPlan.Proofs.Text.Numeral

/-!
# RON reads back

What a RON text means depends on the shape that is expected of it, so reading goes along with the
shape: what is written of a datum is read as the datum by every regular shape that it fits
(`Ron.datum?_write`).

1. A string is read character by character (`Ron.string?_quote`), and so are digits
   (`Ron.integer?_ofNat`) and names (`Ron.word?_append`).
2. Items and fields are both spread over lines, with a comma after each (`spread`); they are read
   one by one (`Ron.items_spread`).
-/

namespace TrackPlan.Ron

variable {level k n left value fuel : Nat} {c : Char} {cs tail rest : List Char}

/-! ## Strings -/

theorem stringBody_plain (hquote : c ≠ '"') (hslash : c ≠ '\\') :
    stringBody (c :: tail) = (stringBody tail).map fun p => (c :: p.1, p.2) := by
  rw [stringBody.eq_4 _ _ hquote (fun _ _ h => absurd h hslash)]

theorem stringBody_run {run : List Char} (h : ∀ c ∈ run, c ≠ '"' ∧ c ≠ '\\') (tail : List Char) :
    stringBody (run ++ tail) = (stringBody tail).map fun p => (run ++ p.1, p.2) := by
  induction run with
  | nil => simp
  | cons c run ih =>
    rw [List.forall_mem_cons] at h
    rw [List.cons_append, stringBody_plain h.1.1 h.1.2, ih h.2, Option.map_map]
    rfl

theorem braced?_append (hlen : cs.length ≤ left)
    (h : cs.foldlM (fun n c => (Text.hexValue? c).map (n * 16 + ·)) value = some n)
    (hn : n.isValidChar) (rest : List Char) :
    braced? left value (cs ++ '\x7d' :: rest) = some (Char.ofNat n, rest) := by
  induction cs generalizing left value with
  | nil =>
    cases h
    simp [braced?, hn]
  | cons c cs ih =>
    obtain ⟨left, rfl⟩ : ∃ l, left = l + 1 := ⟨left - 1, by simp at hlen; omega⟩
    rw [List.foldlM_cons] at h
    cases hc : Text.hexValue? c with
    | none => simp [hc] at h
    | some v =>
      have hclose : c ≠ '\x7d' := by
        rintro rfl
        cases hc
      rw [hc] at h
      rw [List.cons_append, braced?.eq_2 _ _ _ _ hclose, hc]
      exact ih (by simpa using hlen) (by simpa using h)

theorem hexValue?_of_mem_toDigits (h : c ∈ Nat.toDigits 16 n) : ∃ v, Text.hexValue? c = some v := by
  induction n using Nat.strong_induction_on with
  | _ n ih =>
    by_cases hn : n < 16
    · rw [Nat.toDigits_of_lt_base hn, List.mem_singleton] at h
      exact ⟨n, h ▸ Text.hexValue?_digitChar hn⟩
    · rw [Nat.toDigits_of_base_le (by decide) (by omega), List.mem_append, List.mem_singleton] at h
      rcases h with h | rfl
      · exact ih (n / 16) (by omega) h
      · exact ⟨n % 16, Text.hexValue?_digitChar (by omega)⟩

/-- What stands in the braces of an escape goes on with the string. -/
theorem plain_of_mem_braces (h : c ∈ '\x7b' :: Nat.toDigits 16 n ++ ['\x7d']) : c ≠ '"' ∧ c ≠ '\\' := by
  rw [List.cons_append, List.mem_cons, List.mem_append, List.mem_singleton] at h
  rcases h with rfl | h | rfl
  · decide
  · obtain ⟨v, hv⟩ := hexValue?_of_mem_toDigits h
    constructor <;> (rintro rfl; cases hv)
  · decide

theorem escaped?_braces (c : Char) (tail : List Char) :
    escaped? ('u' :: '\x7b' :: (Nat.toDigits 16 c.toNat ++ '\x7d' :: tail)) = some (c, tail) := by
  have hvalue := Text.hexadecimal?_toDigits c.toNat
  have hlen : (Nat.toDigits 16 c.toNat).length ≤ 6 := by
    rw [Nat.length_toDigits_le_iff (by decide) (by decide)]
    have hvalid : c.toNat.isValidChar := c.valid
    unfold Nat.isValidChar at hvalid
    omega
  obtain ⟨d, ds, hds⟩ := List.exists_cons_of_ne_nil (Nat.toDigits_ne_nil (n := c.toNat) (b := 16))
  obtain ⟨v, hv⟩ := hexValue?_of_mem_toDigits (n := c.toNat) (c := d) (by rw [hds]; simp)
  rw [hds] at hlen hvalue ⊢
  rw [Text.hexadecimal?, List.foldlM_cons, hv] at hvalue
  have hbraced : braced? 5 v (ds ++ '\x7d' :: tail) = some (Char.ofNat c.toNat, tail) :=
    braced?_append (by simpa using Nat.le_of_lt_succ hlen) (by simpa using hvalue) c.valid tail
  rw [List.cons_append, escaped?, hv]
  simpa using hbraced

theorem stringBody_pair (e : Char) :
    stringBody ('\\' :: e :: tail) = (stringBody tail).map fun p => ('\\' :: e :: p.1, p.2) := rfl

/-- An escaped character belongs to the body of the string. -/
theorem stringBody_escape (c : Char) (tail : List Char) :
    stringBody (escape c ++ tail) = (stringBody tail).map fun p => (escape c ++ p.1, p.2) := by
  unfold escape
  split
  iterate 7 exact stringBody_pair _
  next _ _ _ _ _ hquote hslash =>
    split
    · rw [List.append_assoc, List.append_assoc]
      have hrun := stringBody_run (fun d => plain_of_mem_braces (c := d) (n := c.toNat)) tail
      simp only [List.cons_append, List.append_assoc, List.nil_append] at hrun ⊢
      rw [stringBody_pair, hrun, Option.map_map]
      rfl
    · exact stringBody_plain hquote hslash

theorem unescapeWithin_escaped (h : escaped? cs = some (c, rest)) :
    unescapeWithin (fuel + 1) ('\\' :: cs) = (c :: ·) <$> unescapeWithin fuel rest := by
  rw [unescapeWithin, h]
  cases hrest : unescapeWithin fuel rest <;> simp [hrest]

/-- An escaped character is read as the character. -/
theorem unescapeWithin_escape (c : Char) (fuel : Nat) (tail : List Char) :
    unescapeWithin (fuel + 1) (escape c ++ tail) = (c :: ·) <$> unescapeWithin fuel tail := by
  unfold escape
  split
  iterate 7 exact unescapeWithin_escaped rfl
  next _ _ _ _ _ hquote hslash =>
    split
    · simp only [List.cons_append, List.append_assoc, List.nil_append]
      exact unescapeWithin_escaped (escaped?_braces c tail)
    · rw [List.cons_append, List.nil_append, unescapeWithin.eq_4 _ _ _ (fun h => absurd h hslash)]
      cases hrest : unescapeWithin fuel tail <;> simp

/-- A string in quotes is read up to the closing one. -/
theorem string?_quote (s : String) (rest : List Char) :
    string? (quote s ++ rest) = some (s, rest) := by
  have hbody : ∀ cs : List Char, stringBody (cs.flatMap escape ++ '"' :: rest) =
      some (cs.flatMap escape, rest) := by
    intro cs
    induction cs with
    | nil => rfl
    | cons c cs ih =>
      rw [List.flatMap_cons, List.append_assoc, stringBody_escape, ih]
      rfl
  have hread : ∀ (cs : List Char) (fuel : Nat), (cs.flatMap escape).length < fuel →
      unescapeWithin fuel (cs.flatMap escape) = some cs := by
    intro cs
    induction cs with
    | nil =>
      intro fuel hf
      obtain ⟨fuel, rfl⟩ : ∃ f, fuel = f + 1 := ⟨fuel - 1, by omega⟩
      rfl
    | cons c cs ih =>
      intro fuel hf
      have hc : escape c ≠ [] := by
        unfold escape
        split <;> try split
        all_goals simp
      have hpos := List.length_pos_of_ne_nil hc
      rw [List.flatMap_cons, List.length_append] at hf
      obtain ⟨fuel, rfl⟩ : ∃ f, fuel = f + 1 := ⟨fuel - 1, by omega⟩
      rw [List.flatMap_cons, unescapeWithin_escape, ih fuel (by omega)]
      rfl
  have hquote : quote s ++ rest = '"' :: (s.toList.flatMap escape ++ '"' :: rest) := by
    simp [quote]
  rw [hquote, string?, quoted?, hbody]
  simp [unescape, hread]

/-! ## Numbers and words -/

/-- What may follow a value: the end of the text, a comma or a closing parenthesis. -/
def Ends (rest : List Char) : Prop := ∀ c ∈ rest.head?, c = ',' ∨ c = ')'

theorem Ends.head?_eq_false {p : Char → Bool} (h : Ends rest) (hcomma : p ',' = false)
    (hclose : p ')' = false) : ∀ c ∈ rest.head?, p c = false := by
  intro c hc
  rcases h c hc with rfl | rfl
  · exact hcomma
  · exact hclose

theorem hexValue?_of_isDigit (h : c.isDigit = true) :
    Text.hexValue? c = some (Text.digitValue c) := by
  rw [Text.hexValue?, if_pos h]

theorem digitsIn?_eq_some (h : ∀ c ∈ cs, c.isDigit = true) :
    digitsIn? 10 value cs = some (cs.foldl (fun n c => n * 10 + Text.digitValue c) value) := by
  induction cs generalizing value with
  | nil => rfl
  | cons c cs ih =>
    rw [List.forall_mem_cons] at h
    have hlt : Text.digitValue c < 10 :=
      decide_eq_true_iff.1 (Text.all_digits (p := fun c => Text.digitValue c < 10) rfl h.1)
    have hline : c ≠ '_' := by
      rintro rfl
      cases h.1
    rw [digitsIn?.eq_3 _ _ _ _ hline, hexValue?_of_isDigit h.1, List.foldl_cons, ← ih h.2]
    simp [hlt]

/-- The digits of a number tell no other base. -/
theorem base_ofNat (n : Nat) (hr : Ends rest) :
    base (Text.ofNat n ++ rest) = (10, Text.ofNat n ++ rest) := by
  have hmark : ∀ m ∈ ['x', 'b', 'o'], ∀ tail, Text.ofNat n ++ rest ≠ '0' :: m :: tail := by
    intro m hm tail h
    have hzero : Text.ofNat n = ['0'] := by
      apply Text.head?_ofNat
      rw [← List.head?_append_of_ne_nil _ (Text.ofNat_ne_nil n), h]
      rfl
    rw [hzero, List.singleton_append, List.cons.injEq] at h
    have hstop : m = ',' ∨ m = ')' := hr m (by rw [h.2]; rfl)
    rcases hstop with rfl | rfl <;> exact absurd hm (by decide)
  unfold base
  split
  · next h => exact absurd h (hmark 'x' (by decide) _)
  · next h => exact absurd h (hmark 'b' (by decide) _)
  · next h => exact absurd h (hmark 'o' (by decide) _)
  · rfl

/-- The digits of a number are read as the number. -/
theorem integer?_ofNat {bound : Nat} (h : n < bound) (hr : Ends rest) :
    integer? bound (Text.ofNat n ++ rest) = some (n, rest) := by
  have hrun : ∀ c ∈ Text.ofNat n, isIntegerChar c = true := by
    intro c hc
    rw [isIntegerChar, hexValue?_of_isDigit (Text.isDigit_of_mem_ofNat hc)]
    rfl
  have hstop : ∀ c ∈ rest.head?, isIntegerChar c = false :=
    hr.head?_eq_false (by decide) (by decide)
  have hfront : (Text.ofNat n).head? ≠ some '_' := by
    obtain ⟨c, cs, hcs, hc⟩ := Text.exists_cons_ofNat n
    rw [hcs, List.head?_cons, ne_eq, Option.some.injEq]
    rintro rfl
    cases hc
  have hvalue : digitsIn? 10 0 (Text.ofNat n) = some n := by
    rw [digitsIn?_eq_some fun c => Text.isDigit_of_mem_ofNat]
    exact congrArg some (Text.decimal_ofNat n)
  rw [integer?, base_ofNat n hr]
  simp only [Text.takeWhile_append_of_stop hrun hstop, Text.dropWhile_append_of_stop hrun hstop]
  simp [Text.ofNat_ne_nil, hfront, hvalue, h]

/-- What may follow a word. -/
def stopsWord (c : Char) : Bool := !Text.isWordChar c && c != '"' && c != '#'

/-- A word is read up to a character that does not go on with it. -/
theorem word?_append {name : String} (h : isWord name = true)
    (hr : ∀ c ∈ rest.head?, stopsWord c = true) :
    word? (name.toList ++ rest) = some (false, name, rest) := by
  rw [isWord] at h
  have hstop : ∀ c ∈ rest.head?, Text.isWordChar c = false := by
    intro c hc
    have := hr c hc
    simp only [stopsWord, Bool.and_eq_true, Bool.not_eq_true'] at this
    exact this.1.1
  cases hname : name.toList with
  | nil => simp [hname] at h
  | cons c cs =>
    rw [hname] at h
    simp only [Bool.and_eq_true, List.all_eq_true] at h
    have hmark : ∀ m, stopsWord m = false → Text.isWordChar m = false →
        ∀ tail, cs ++ rest ≠ m :: tail := by
      intro m hm hchar tail heq
      cases cs with
      | nil =>
        rw [List.nil_append] at heq
        rw [hr m (by rw [heq]; rfl)] at hm
        cases hm
      | cons d cs =>
        rw [List.cons_append, List.cons.injEq] at heq
        rw [← heq.1, h.2 d List.mem_cons_self] at hchar
        cases hchar
    have hquote := hmark '"' (by decide) (by decide)
    have hhash := hmark '#' (by decide) (by decide)
    rw [List.cons_append, word?.eq_3]
    · rw [isWordHead, if_pos h.1, Text.takeWhile_append_of_stop h.2 hstop,
        Text.dropWhile_append_of_stop h.2 hstop, ← hname, String.ofList_toList]
    · exact fun tail _ heq => hquote tail heq
    · exact fun tail _ heq => hhash tail heq

/-! ## Values -/

/-- Characters that a value begins with. -/
def isHead (c : Char) : Bool :=
  !isSpace c && c != '/' && c != ']' && c != ')' && c != '#'

theorem isHead_of_isWordHead (h : isWordHead c = true) : isHead c = true := by
  have hnot : [' ', '\t', '\n', '\r', '/', ']', ')', '#'].all (!isWordHead ·) = true := by decide
  by_contra hc
  have hmem : c ∈ [' ', '\t', '\n', '\r', '/', ']', ')', '#'] := by
    simp only [isHead, isSpace, List.mem_cons, List.not_mem_nil] at hc ⊢
    grind
  have hno := List.all_eq_true.1 hnot c hmem
  rw [h] at hno
  cases hno

theorem exists_head_of_isWord {name : String} (h : isWord name = true) :
    ∃ c cs, name.toList = c :: cs ∧ isHead c = true := by
  rw [isWord] at h
  cases hname : name.toList with
  | nil => simp [hname] at h
  | cons c cs =>
    rw [hname] at h
    simp only [Bool.and_eq_true] at h
    exact ⟨c, cs, rfl, isHead_of_isWordHead h.1⟩

/-- What is written of a datum begins with a value. -/
theorem exists_head {limit : Nat} {s : Shape} {d : Datum} (h : Fits limit s d)
    (hs : s.isRegular = true) (level : Nat) : ∃ c cs, write level d = c :: cs ∧ isHead c = true := by
  cases h with
  | text s => exact ⟨'"', _, rfl, rfl⟩
  | @number _ n =>
    obtain ⟨c, cs, h, hc⟩ := Text.exists_cons_ofNat n
    exact ⟨c, cs, h, Text.all_digits rfl hc⟩
  | flag b => cases b <;> exact ⟨_, _, rfl, rfl⟩
  | @choice _ name hmem =>
    rw [Shape.isRegular, List.all_eq_true] at hs
    exact exists_head_of_isWord (hs name hmem)
  | absent s => exact ⟨'N', _, rfl, rfl⟩
  | present h => exact ⟨'S', _, rfl, rfl⟩
  | @list _ ds => cases ds <;> exact ⟨'[', _, rfl, rfl⟩
  | @struct _ _ fields => cases fields <;> exact ⟨'(', _, rfl, rfl⟩

theorem skip_of_isHead (h : isHead c = true) : skip (c :: cs) = some (c :: cs) := by
  simp only [isHead, Bool.and_eq_true, Bool.not_eq_true', bne_iff_ne] at h
  obtain ⟨⟨⟨⟨hspace, hslash⟩, -⟩, -⟩, -⟩ := h
  rw [skip, skipFrom.eq_4 _ _ (by simp [hslash]) (by simp [hslash]) hslash, if_neg (by simp [hspace])]

theorem skip_indent (level : Nat) (cs : List Char) :
    skip ('\n' :: (indent level ++ cs)) = skip cs := by
  have hspace : ∀ n, skip (List.replicate n ' ' ++ cs) = skip cs := by
    intro n
    induction n with
    | zero => rfl
    | succ n ih => exact ih
  exact hspace _

/-- Texts on lines of their own, with a comma after each. -/
def spread (level : Nat) (texts : List (List Char)) : List Char :=
  texts.flatMap fun t => indent level ++ t ++ [',', '\n']

theorem writeItems_eq (level : Nat) (ds : List Datum) :
    writeItems level ds = spread level (ds.map (write level)) := by
  induction ds with
  | nil => rfl
  | cons d ds ih =>
    rw [writeItems, ih]
    rfl

/-- A field on its line. -/
def writeField (level : Nat) (f : String × Datum) : List Char :=
  f.1.toList ++ ':' :: ' ' :: write level f.2

theorem writeFields_eq (level : Nat) (fs : List (String × Datum)) :
    writeFields level fs = spread level (fs.map (writeField level)) := by
  induction fs with
  | nil => rfl
  | cons f fs ih =>
    obtain ⟨name, d⟩ := f
    rw [writeFields, ih]
    simp [spread, writeField]

/-- The text begins with a value, and is read as the item up to the comma after it. -/
structure ReadsItem {α : Type} (item : List Char → Option (α × List Char)) (text : List Char)
    (x : α) : Prop where
  head : ∃ c cs, text = c :: cs ∧ isHead c = true
  read : ∀ rest, item (text ++ ',' :: rest) = some (x, ',' :: rest)

section Items

variable {α : Type} {mark : Char} {item : List Char → Option (α × List Char)}
  {texts : List (List Char)} {xs : List α}

/-- Texts on lines are read one by one, if each of them is read up to its comma. -/
theorem items_spread (level k : Nat) (hmark : mark = ']' ∨ mark = ')')
    (h : List.Forall₂ (ReadsItem item) texts xs) (hf : texts.length < fuel) (rest : List Char) :
    items mark item fuel ('\n' :: (spread level texts ++ (indent k ++ mark :: rest))) =
      some (xs, rest) := by
  obtain ⟨fuel, rfl⟩ : ∃ f, fuel = f + 1 := ⟨fuel - 1, by omega⟩
  induction h generalizing fuel with
  | nil =>
    have hskip : skip (mark :: rest) = some (mark :: rest) := by
      rcases hmark with rfl | rfl <;> rfl
    rw [items, spread, List.flatMap_nil, List.nil_append, skip_indent, hskip]
    simp
  | @cons t x texts xs ht _ ih =>
    obtain ⟨⟨c, cs, rfl, hc⟩, hread⟩ := ht
    have hne : c ≠ mark := by
      rintro rfl
      rcases hmark with rfl | rfl <;> cases hc
    obtain ⟨fuel, rfl⟩ : ∃ f, fuel = f + 1 := ⟨fuel - 1, by simp at hf; omega⟩
    have hspread : spread level ((c :: cs) :: texts) ++ (indent k ++ mark :: rest) = indent level ++
        ((c :: cs) ++ ',' :: '\n' :: (spread level texts ++ (indent k ++ mark :: rest))) := by
      simp [spread]
    have hcomma : ∀ cs, skip (',' :: cs) = some (',' :: cs) := fun _ => rfl
    have hitem := hread ('\n' :: (spread level texts ++ (indent k ++ mark :: rest)))
    rw [List.cons_append] at hitem
    rw [hspread, items, skip_indent, List.cons_append, skip_of_isHead hc]
    simp only [Option.bind_eq_bind, Option.bind_some, if_neg hne, hitem, hcomma,
      ih fuel (by simpa using hf)]
    rfl

end Items

/-- What is between the marks of a list or a structure at a level, with the closing mark. -/
def block (level : Nat) (mark : Char) : List (List Char) → List Char
  | [] => [mark]
  | t :: texts => '\n' :: spread (level + 1) (t :: texts) ++ (indent level ++ [mark])

theorem write_list (level : Nat) (ds : List Datum) :
    write level (.list ds) = '[' :: block level ']' (ds.map (write (level + 1))) := by
  cases ds with
  | nil => rfl
  | cons d ds => rw [write, writeItems_eq, List.map_cons, block]; simp

theorem write_struct (level : Nat) (fs : List (String × Datum)) :
    write level (.struct fs) = '(' :: block level ')' (fs.map (writeField (level + 1))) := by
  cases fs with
  | nil => rfl
  | cons f fs => rw [write, writeFields_eq, List.map_cons, block]; simp

theorem length_le_spread (level : Nat) (texts : List (List Char)) :
    texts.length ≤ (spread level texts).length := by
  induction texts with
  | nil => exact Nat.zero_le _
  | cons t texts ih =>
    have hcons : spread level (t :: texts) = indent level ++ t ++ [',', '\n'] ++ spread level texts :=
      List.flatMap_cons
    rw [hcons, List.length_append, List.length_append, List.length_cons]
    simp only [List.length_cons, List.length_nil]
    omega

theorem length_lt_block (level : Nat) (mark : Char) (texts : List (List Char)) :
    texts.length < (block level mark texts).length := by
  cases texts with
  | nil => exact Nat.one_pos
  | cons t texts =>
    have := length_le_spread (level + 1) (t :: texts)
    simp only [block, List.length_append, List.length_cons] at this ⊢
    omega

theorem length_lt_block_of_mem {t : List Char} {texts : List (List Char)} (h : t ∈ texts)
    (level : Nat) (mark : Char) : t.length < (block level mark texts).length := by
  have hpart : ∀ texts, t ∈ texts → t.length ≤ (spread (level + 1) texts).length := by
    intro texts h
    have hsub := List.sublist_flatten_of_mem
      (List.mem_map_of_mem (f := fun t => indent (level + 1) ++ t ++ [',', '\n']) h)
    have hlen := hsub.length_le
    rw [← List.flatMap_def, List.length_append, List.length_append] at hlen
    exact Nat.le_trans (by omega) hlen
  cases texts with
  | nil => cases h
  | cons u texts =>
    have := hpart _ h
    rw [block, List.length_append, List.length_cons]
    omega

/-- Items in a block are read one by one, if each of them is read up to its comma. A block is
longer than it has items, so its length is fuel enough. -/
theorem items_block {α : Type} {mark : Char} {item : List Char → Option (α × List Char)}
    {texts : List (List Char)} {xs : List α} (hmark : mark = ']' ∨ mark = ')')
    (h : List.Forall₂ (ReadsItem item) texts xs) (hf : (block level mark texts).length ≤ fuel)
    (rest : List Char) : items mark item fuel (block level mark texts ++ rest) = some (xs, rest) := by
  have hlen := length_lt_block level mark texts
  cases h with
  | nil =>
    have hskip : skip (mark :: rest) = some (mark :: rest) := by
      rcases hmark with rfl | rfl <;> rfl
    obtain ⟨fuel, rfl⟩ : ∃ f, fuel = f + 1 := ⟨fuel - 1, by omega⟩
    rw [block, List.singleton_append, items, hskip]
    simp
  | cons ht h =>
    have hitems := items_spread (level + 1) level hmark (.cons ht h) (hlen.trans_le hf) rest
    rw [block]
    simpa using hitems

/-! ## Data -/

/-- A field is read by the shape that the structure has for its name. -/
theorem fieldDatum?_eq {m : Mode} {layout : Layout} {f : String × Shape × Option Datum} {room : Nat}
    (hn : (layout.map Prod.fst).Nodup) (hf : f ∈ layout) :
    fieldDatum? m layout f.1 room cs =
      (datum? m f.2.1 room cs).map fun p => ((f.1, some p.1), p.2) := by
  induction layout with
  | nil => cases hf
  | cons g layout ih =>
    obtain ⟨known, s, default⟩ := g
    rw [List.map_cons, List.nodup_cons] at hn
    rw [fieldDatum?]
    rcases List.mem_cons.1 hf with rfl | hmem
    · rw [if_pos rfl]
      cases datum? m s room cs <;> rfl
    · have hne : known ≠ f.1 := fun heq => hn.1 (List.mem_map.2 ⟨f, hmem, heq.symm⟩)
      rw [if_neg hne, ih hn.2 hmem]

theorem fieldName?_append {name : String} (h : isWord name = true) (hc : isHead c = true)
    (cs : List Char) :
    fieldName? (name.toList ++ ':' :: ' ' :: c :: cs) = some (name, c :: cs) := by
  have hword : word? (name.toList ++ ':' :: ' ' :: c :: cs) =
      some (false, name, ':' :: ' ' :: c :: cs) := word?_append h (by simp; decide)
  have hcolon : skip (':' :: ' ' :: c :: cs) = some (':' :: ' ' :: c :: cs) := rfl
  have hblank : skip (' ' :: c :: cs) = skip (c :: cs) := rfl
  rw [fieldName?, hword]
  simp [hcolon, hblank, skip_of_isHead hc]

theorem body?_paren (name : String) (cs : List Char) : body? name ('(' :: cs) = some cs := rfl

theorem deeper?_of_le (h : n + 1 ≤ k) : ∃ room, deeper? k = some room ∧ n ≤ room :=
  ⟨k - 1, by obtain ⟨k, rfl⟩ : ∃ j, k = j + 1 := ⟨k - 1, by omega⟩; rfl, by omega⟩

/-- A field of a structure, as an item of it. -/
def fieldItem (m : Mode) (layout : Layout) (room : Nat) (cs : List Char) :
    Option ((String × Option Datum) × List Char) := do
  let (name, rest) ← fieldName? cs
  fieldDatum? m layout name (← deeper? room) rest

/-- A field on its line is read as the field, if its datum is. -/
theorem readsItem_writeField {m : Mode} {layout : Layout} {f : String × Shape × Option Datum}
    {room room' : Nat} (hn : (layout.map Prod.fst).Nodup) (hf : f ∈ layout) (hword : isWord f.1 = true)
    (hroom : deeper? room = some room') (hd : ReadsItem (datum? m f.2.1 room') (write level d) d) :
    ReadsItem (fieldItem m layout room) (writeField level (f.1, d)) (f.1, some d) := by
  obtain ⟨c, cs, hhead, hc⟩ := hd.head
  obtain ⟨c', cs', hhead', hc'⟩ := exists_head_of_isWord hword
  refine ⟨⟨c', _, by rw [writeField, hhead', List.cons_append], hc'⟩, fun rest => ?_⟩
  have hread := hd.read rest
  have hname := fieldName?_append hword hc (cs ++ ',' :: rest)
  simp only [hhead, List.cons_append] at hread
  rw [writeField, hhead, List.append_assoc]
  simp only [fieldItem, List.cons_append, hname, hroom, Option.bind_eq_bind, Option.bind_some,
    fieldDatum?_eq hn hf, hread, Option.map_some]

theorem Ends.stopsWord (h : Ends rest) : ∀ c ∈ rest.head?, stopsWord c = true := by
  intro c hc
  rcases h c hc with rfl | rfl <;> decide

theorem datum?_present {m : Mode} {s : Shape} {room room' : Nat} (hroom : deeper? room = some room')
    (hhead : ∃ c cs, write level d = c :: cs ∧ isHead c = true)
    (hd : datum? m s room' (write level d ++ ')' :: rest) = some (d, ')' :: rest)) :
    datum? m (.option s) room (write level (.present d) ++ rest) = some (.present d, rest) := by
  obtain ⟨c, cs, hhead, hc⟩ := hhead
  have htext : write level (.present d) ++ rest =
      "Some".toList ++ '(' :: (write level d ++ ')' :: rest) := by
    simp [write]
  have hnone : "None".toList.isPrefixOf? ("Some".toList ++ '(' :: (write level d ++ ')' :: rest)) =
      none := rfl
  have hsome : "Some".toList.isPrefixOf? ("Some".toList ++ '(' :: (write level d ++ ')' :: rest)) =
      some ('(' :: (write level d ++ ')' :: rest)) := rfl
  have hparen : ∀ cs, skip ('(' :: cs) = some ('(' :: cs) := fun _ => rfl
  have hskip : skip (write level d ++ ')' :: rest) = some (write level d ++ ')' :: rest) := by
    rw [hhead, List.cons_append, skip_of_isHead hc]
  have hclosing : closing? (')' :: rest) = some rest := rfl
  rw [htext, datum?, hnone]
  simp only [hroom, hsome, hparen, hskip, hd, hclosing, Option.bind_eq_bind, Option.bind_some,
    Option.map_eq_map, Option.map_some]
  rfl

theorem datum?_list {m : Mode} {s : Shape} {ds : List Datum} {room room' : Nat}
    (hroom : deeper? room = some room')
    (hsize : (write level (.list ds)).length ≤ m.size)
    (h : ∀ d ∈ ds, ReadsItem (fun cs => do datum? m s (← deeper? room') cs) (write (level + 1) d) d) :
    datum? m (.list s) room (write level (.list ds) ++ rest) = some (.list ds, rest) := by
  rw [write_list, List.length_cons] at hsize
  have hitems : items ']' (fun cs => do datum? m s (← deeper? room') cs) m.size
      (block level ']' (ds.map (write (level + 1))) ++ rest) = some (ds, rest) :=
    items_block (Or.inl rfl) (List.forall₂_map_left_iff.2 (List.forall₂_same.2 h))
      (Nat.le_of_succ_le hsize) rest
  rw [write_list, List.cons_append, datum?]
  simp only [hroom, Option.bind_eq_bind, Option.bind_some] at hitems ⊢
  rw [hitems]
  rfl

theorem datum?_struct {m : Mode} {name : String} {layout : Layout} {fields : List (String × Datum)}
    {room room' : Nat} (hn : fields.map Prod.fst = layout.map Prod.fst)
    (hnodup : (layout.map Prod.fst).Nodup) (hroom : deeper? room = some room')
    (hsize : (write level (.struct fields)).length ≤ m.size)
    (h : ∀ e ∈ fields,
      ReadsItem (fieldItem m layout room') (writeField (level + 1) e) (e.1, some e.2)) :
    datum? m (.struct name layout) room (write level (.struct fields) ++ rest) =
      some (.struct fields, rest) := by
  rw [write_struct, List.length_cons] at hsize
  have hitems : items ')' (fieldItem m layout room') m.size
      (block level ')' (fields.map (writeField (level + 1))) ++ rest) =
        some (fields.map fun f => (f.1, some f.2), rest) := by
    have hread := List.forall₂_map_left_iff.2 (List.forall₂_map_right_iff.2 (List.forall₂_same.2 h))
    exact items_block (Or.inr rfl) hread (Nat.le_of_succ_le hsize) rest
  have hknown : (fields.map fun f => (f.1, some f.2)).filterMap
      (fun p : String × Option Datum => p.2.map (p.1, ·)) = fields := by
    simp
  rw [write_struct, List.cons_append, datum?]
  unfold fieldItem at hitems
  simp only [hroom, Option.bind_eq_bind, Option.bind_some, body?_paren] at hitems ⊢
  rw [hitems]
  simp [hknown, Layout.complete_eq_some hn hnodup]

/-- What is written of a datum of a regular shape is read as the datum. -/
theorem datum?_write {limit : Nat} {s : Shape} {d : Datum} (h : Fits limit s d)
    (hs : s.isRegular = true) {m : Mode} {room : Nat} (hroom : s.depth ≤ room) (level : Nat)
    (hsize : (write level d).length ≤ m.size) {rest : List Char} (hr : Ends rest) :
    datum? m s room (write level d ++ rest) = some (d, rest) := by
  have hcomma : ∀ rest, Ends (',' :: rest) := by simp [Ends]
  induction h generalizing room level rest with
  | text s =>
    rw [datum?, write, string?_quote]
    rfl
  | number hb _ =>
    rw [datum?, write, integer?_ofNat hb hr]
    rfl
  | flag b =>
    cases b
    · rw [datum?, write, if_neg Bool.false_ne_true, word?_append (by decide) hr.stopsWord]
      simp
    · rw [datum?, write, if_pos rfl, word?_append (by decide) hr.stopsWord]
      simp
  | @choice names name hmem =>
    rw [Shape.isRegular, List.all_eq_true] at hs
    rw [datum?, write, word?_append (hs name hmem) hr.stopsWord]
    simp [hmem]
  | absent s =>
    have hnone : "None".toList.isPrefixOf? (write level .absent ++ rest) = some rest := rfl
    rw [datum?, hnone]
  | @present s d hd ih =>
    rw [Shape.isRegular, Bool.and_eq_true] at hs
    rw [Shape.depth] at hroom
    obtain ⟨room', hdeeper, hroom'⟩ := deeper?_of_le hroom
    exact datum?_present hdeeper (exists_head hd hs.2 level)
      (ih hs.2 hroom' level (by simp [write] at hsize; omega) (by simp [Ends]))
  | @list s ds hds ih =>
    rw [Shape.isRegular, Bool.and_eq_true] at hs
    rw [Shape.depth] at hroom
    obtain ⟨room₁, hdeeper₁, hroom₁⟩ := deeper?_of_le hroom
    obtain ⟨room₂, hdeeper₂, hroom₂⟩ := deeper?_of_le hroom₁
    refine datum?_list hdeeper₁ hsize fun d hd => ⟨exists_head (hds d hd) hs.2 _, fun rest => ?_⟩
    have hlen := length_lt_block_of_mem
      (List.mem_map_of_mem (f := write (level + 1)) hd) level ']'
    rw [write_list, List.length_cons] at hsize
    rw [hdeeper₂]
    exact ih d hd hs.2 hroom₂ (level + 1) (by omega) (hcomma rest)
  | @struct name layout fields hn hfields ih =>
    rw [Shape.isRegular_struct_iff] at hs
    obtain ⟨hnodup, -, hregular⟩ := hs
    rw [Shape.depth] at hroom
    obtain ⟨room₁, hdeeper₁, hroom₁⟩ := deeper?_of_le hroom
    obtain ⟨room₂, hdeeper₂, hroom₂⟩ := deeper?_of_le hroom₁
    refine datum?_struct hn hnodup hdeeper₁ hsize ?_
    rintro ⟨key, d⟩ he
    obtain ⟨f, hp, rfl⟩ := exists_mem_zip hn he
    have hf := (List.of_mem_zip hp).1
    have hs := (hregular f hf).isRegular
    have hlen := length_lt_block_of_mem
      (List.mem_map_of_mem (f := writeField (level + 1)) he) level ')'
    rw [write_struct, List.length_cons] at hsize
    rw [writeField, List.length_append, List.length_cons, List.length_cons] at hlen
    dsimp only at hlen
    exact readsItem_writeField hnodup hf (hregular f hf).isWord hdeeper₂
      ⟨exists_head (hfields _ hp) hs (level + 1), fun rest => ih _ hp hs
        (Nat.le_trans (Shape.depth_le_layoutDepth hf) hroom₂) (level + 1) (by dsimp only; omega)
          (hcomma rest)⟩

/-- **RON reads back.** What is written of a datum of a regular shape is read as the datum. -/
theorem read?_render {limit : Nat} {s : Shape} {d : Datum} (h : Fits limit s d)
    (hs : s.isRegular = true) (hdepth : s.depth ≤ maxDepth) : read? s (render d) = some d := by
  obtain ⟨c, cs, hhead, hc⟩ := exists_head h hs 0
  have hhash : c ≠ '#' := by
    rintro rfl
    cases hc
  have hattributes : ∀ size m, attributes (size + 1) m (render d) = some (m, render d) := by
    intro size m
    rw [attributes, render, hhead, skip_of_isHead hc]
    simp [hhash]
  have hends : Ends [] := by simp [Ends]
  have hread := datum?_write h hs (m := { size := (render d).length + 1 }) hdepth 0
    (Nat.le_succ _) hends
  rw [List.append_nil, ← render] at hread
  have hskip : skip [] = some [] := rfl
  rw [read?]
  simp [hattributes, hread, hskip]

end TrackPlan.Ron
