import TrackPlan.Document.Toml.Reader
import TrackPlan.Document.Toml.Writer
import TrackPlan.Proofs.Text.Numeral

/-!
# TOML texts read back

A text is read as it was, whichever way to quote it has been chosen (`Toml.quoted?_quote`).

1. Each character of an escaped text is a piece of its own (`Piece`), except a quote that stands
   unescaped between triple quotes.
2. A body is read piece by piece up to the closing quotes. Between triple quotes the reader looks a
   whole run of quotes ahead, so the induction carries the quotes that the text has just had
   (`linesBody_escape`, `linesBody_literal`).
-/

namespace TrackPlan.Toml

variable {q : Quoting} {basic multiline : Bool} {run fuel : Nat} {c : Char}
  {cs tail rest w : List Char}

/-! ## Bodies, piece by piece -/

/-- The reader of a body takes the characters as they are and goes on behind them. -/
def Passes (read : List Char → Option (List Char × List Char)) (w : List Char) : Prop :=
  ∀ tail, read (w ++ tail) = (read tail).map fun p => (w ++ p.1, p.2)

theorem Passes.append {read : List Char → Option (List Char × List Char)} {w' : List Char}
    (h : Passes read w) (h' : Passes read w') : Passes read (w ++ w') := by
  intro tail
  rw [List.append_assoc, h, h', Option.map_map]
  simp [Function.comp_def]

theorem Passes.of_forall {read : List Char → Option (List Char × List Char)}
    (h : ∀ c ∈ w, Passes read [c]) : Passes read w := by
  induction w with
  | nil => intro tail; simp
  | cons c w ih =>
    rw [List.forall_mem_cons] at h
    exact h.1.append (ih h.2)

/-- The quote of a text. -/
def mark (basic : Bool) : Char := if basic then '"' else '\''

theorem lineBody_char (hmark : c ≠ mark basic) (hslash : basic = true → c ≠ '\\') :
    Passes (lineBody basic) [c] := by
  intro tail
  by_cases hc : c = '\\'
  · obtain rfl : basic = false := by simpa using fun hb => hslash hb hc
    subst hc
    cases tail <;> rfl
  · rw [List.singleton_append, lineBody.eq_3 _ _ _ (fun _ _ h => absurd h hc), ← mark, if_neg hmark]
    rfl

theorem lineBody_pair (e : Char) : Passes (lineBody true) ['\\', e] := fun _ => rfl

/-- Between triple quotes the reader looks ahead to the end of a run of quotes. -/
theorem linesBody_cons (hc : c ≠ '\\') {n : Nat}
    (hn : ((c :: tail).takeWhile (· == mark basic)).length = n) :
    linesBody basic (c :: tail) =
      if 3 ≤ n then
        if n ≤ 5 then some (List.replicate (n - 3) (mark basic), (c :: tail).drop n) else none
      else (linesBody basic tail).map fun p => (c :: p.1, p.2) := by
  subst hn
  rw [linesBody.eq_3 _ _ _ (fun _ _ h => absurd h hc)]
  rfl

theorem linesBody_char (hmark : c ≠ mark basic) (hslash : basic = true → c ≠ '\\') :
    Passes (linesBody basic) [c] := by
  intro tail
  by_cases hc : c = '\\'
  · obtain rfl : basic = false := by simpa using fun hb => hslash hb hc
    subst hc
    cases tail <;> rfl
  · have hquotes : ((c :: tail).takeWhile (· == mark basic)).length = 0 := by
      rw [List.takeWhile_cons_of_neg (by simpa using hmark), List.length_nil]
    rw [List.singleton_append, linesBody_cons hc hquotes, if_neg (by decide)]
    rfl

theorem linesBody_pair (e : Char) : Passes (linesBody true) ['\\', e] := fun _ => rfl

/-- What stands in an escaped text for a character. -/
inductive Piece (multiline : Bool) : Char → List Char → Prop
  | plain {c : Char} (hquote : c ≠ '"') (hslash : c ≠ '\\') (h : isPrintable c = true) :
    Piece multiline c [c]
  | line (h : multiline = true) : Piece multiline '\n' ['\n']
  | escaped {c e : Char} {more : List Char} (he : e ∉ [' ', '\t', '\n', '\r'])
    (hmore : ∀ d ∈ more, d ≠ '"' ∧ d ≠ '\\')
    (h : ∀ tail, escaped? (e :: (more ++ tail)) = some (c, tail)) :
    Piece multiline c ('\\' :: e :: more)

/-- A piece belongs to the body of its text. -/
theorem Piece.passes {read : List Char → Option (List Char × List Char)}
    (hchar : ∀ c, c ≠ '"' → c ≠ '\\' → Passes read [c]) (hpair : ∀ e, Passes read ['\\', e])
    (h : Piece multiline c w) : Passes read w := by
  cases h with
  | plain hquote hslash _ => exact hchar c hquote hslash
  | line _ => exact hchar '\n' (by decide) (by decide)
  | @escaped _ e more _ hmore _ =>
    exact (hpair e).append (.of_forall fun d hd => hchar d (hmore d hd).1 (hmore d hd).2)

theorem newline?_eq_none (hline : c ≠ '\n') (hreturn : c ≠ '\r') : newline? (c :: tail) = none := by
  unfold newline?
  split
  · next heq => exact absurd (List.cons.inj heq).1 hline
  · next heq => exact absurd (List.cons.inj heq).1 hreturn
  · rfl

theorem newline?_of_isPrintable (h : isPrintable c = true) : newline? (c :: tail) = none := by
  apply newline?_eq_none <;>
  · rintro rfl
    cases h

/-- A printable character stands for itself. -/
theorem unescapeWithin_printable (hslash : basic = true → c ≠ '\\') (h : isPrintable c = true) :
    unescapeWithin basic multiline (fuel + 1) (c :: tail) =
      (c :: ·) <$> unescapeWithin basic multiline fuel tail := by
  have hnot : ¬ (basic = true ∧ c = '\\') := fun hb => hslash hb.1 hb.2
  have hline : (if multiline = true then newline? (c :: tail) else none) = none := by
    rw [newline?_of_isPrintable h, ite_self]
  rw [unescapeWithin, hline]
  simp only [if_neg hnot, if_pos h]

theorem unescapeWithin_newline (h : multiline = true) :
    unescapeWithin basic multiline (fuel + 1) ('\n' :: tail) =
      ('\n' :: ·) <$> unescapeWithin basic multiline fuel tail := by
  rw [unescapeWithin, if_pos h]
  rfl

/-- A piece is read as its character. -/
theorem Piece.unescapeWithin_append (h : Piece multiline c w) (fuel : Nat) (tail : List Char) :
    unescapeWithin true multiline (fuel + 1) (w ++ tail) =
      (c :: ·) <$> unescapeWithin true multiline fuel tail := by
  cases h with
  | plain _ hslash h => exact unescapeWithin_printable (fun _ => hslash) h
  | line h => exact unescapeWithin_newline h
  | @escaped _ e more he _ h =>
    have hline : (if multiline = true then newline? ('\\' :: e :: (more ++ tail)) else none) =
        none := by
      rw [newline?_eq_none (by decide) (by decide), ite_self]
    have hgap : (if multiline = true then continuation? (e :: (more ++ tail)) else none) = none := by
      simp only [List.mem_cons, List.not_mem_nil, or_false, not_or] at he
      have hblanks : blanks (e :: (more ++ tail)) = e :: (more ++ tail) :=
        List.dropWhile_cons_of_neg (by simp [he])
      rw [continuation?, hblanks, newline?_eq_none he.2.2.1 he.2.2.2]
      simp
    rw [List.cons_append, List.cons_append, unescapeWithin, hline]
    simp only [true_and, if_true, hgap, h]
    cases hrest : unescapeWithin true multiline fuel tail <;> simp [hrest]

/-! ## Runs of quotes between triple quotes -/

theorem mark_ne_backslash (basic : Bool) : mark basic ≠ '\\' := by
  cases basic <;> decide

theorem takeWhile_replicate_append {p : Char → Bool} (hc : p c = true) (n : Nat)
    (htail : ∀ d ∈ tail.head?, p d = false) :
    (List.replicate n c ++ tail).takeWhile p = List.replicate n c :=
  Text.takeWhile_append_of_stop (fun _ hd => (List.mem_replicate.1 hd).2 ▸ hc) htail

/-- At most two quotes in a row belong to the body, if it goes on behind them. -/
theorem linesBody_quotes {m : Char} (hm : mark basic = m) {n : Nat} (hn : n ≤ 2)
    (htail : ∀ d ∈ tail.head?, d ≠ m) :
    linesBody basic (List.replicate n m ++ tail) =
      (linesBody basic tail).map fun p => (List.replicate n m ++ p.1, p.2) := by
  subst hm
  induction n with
  | zero => simp
  | succ n ih =>
    have hrun : ((List.replicate (n + 1) (mark basic) ++ tail).takeWhile (· == mark basic)).length =
        n + 1 := by
      rw [takeWhile_replicate_append (by simp) _ (by simpa using htail), List.length_replicate]
    rw [List.replicate_succ, List.cons_append] at hrun ⊢
    rw [linesBody_cons (mark_ne_backslash basic) hrun, if_neg (by omega), ih (by omega),
      Option.map_map]
    rfl

/-- At most two quotes in a row belong to the body, if the closing ones follow. -/
theorem linesBody_close {m : Char} (hm : mark basic = m) {n : Nat} (hn : n ≤ 2)
    (hrest : ∀ d ∈ rest.head?, d ≠ m) :
    linesBody basic (List.replicate n m ++ (List.replicate 3 m ++ rest)) =
      some (List.replicate n m, rest) := by
  subst hm
  have hrun : ((List.replicate (n + 3) (mark basic) ++ rest).takeWhile (· == mark basic)).length =
      n + 3 := by
    rw [takeWhile_replicate_append (by simp) _ (by simpa using hrest), List.length_replicate]
  rw [← List.append_assoc, List.replicate_append_replicate]
  rw [List.replicate_succ, List.cons_append] at hrun ⊢
  rw [linesBody_cons (mark_ne_backslash basic) hrun, if_pos (by omega), if_pos (by omega),
    ← List.cons_append, ← List.replicate_succ]
  simp

/-! ## Escaped texts -/

/-- How many unescaped quotes stand just before what follows a character. -/
def nextRun (q : Quoting) (run : Nat) (c : Char) : Nat :=
  if c = '"' ∧ run < q.quotes then run + 1 else 0

/-- A text is escaped character by character. -/
theorem escape_cons (q : Quoting) (run : Nat) (c : Char) (cs : List Char) :
    escape q run (c :: cs) = escape q run [c] ++ escape q (nextRun q run c) cs := by
  by_cases hc : c = '"'
  · subst hc
    by_cases hrun : run < q.quotes <;> simp [escape, nextRun, hrun]
  · have hnext : nextRun q run c = 0 := if_neg fun h => hc h.1
    rw [hnext, escape.eq_def q run (c :: cs), escape.eq_def q run [c]]
    dsimp only
    split
    · exact absurd rfl hc
    iterate 3 rfl
    · split <;> rfl
    iterate 2 rfl
    · split <;> rfl

theorem hexValue?_hexDigit {n : Nat} (h : n < 16) : Text.hexValue? (hexDigit n) = some n := by
  have hall : ∀ n < 16, Text.hexValue? (hexDigit n) = some n := by decide
  exact hall n h

theorem hexDigit_plain {n : Nat} (h : n < 16) : hexDigit n ≠ '"' ∧ hexDigit n ≠ '\\' := by
  have hall : ∀ n < 16, hexDigit n ≠ '"' ∧ hexDigit n ≠ '\\' := by decide
  exact hall n h

theorem toNat_lt_of_isControl (h : isControl c = true) : c.toNat < 128 := by
  simp only [isControl, Bool.or_eq_true, Bool.and_eq_true, decide_eq_true_eq, beq_iff_eq] at h
  omega

theorem isPrintable_of_not_isControl (h : ¬ isControl c = true) (hline : c ≠ '\n') :
    isPrintable c = true := by
  simp [isControl, hline] at h
  simp [isPrintable]
  by_cases htab : c = '\t'
  · exact Or.inl htab
  · refine Or.inr ⟨?_, h.2⟩
    by_contra hlow
    exact htab (h.1 (by omega))

/-- A control character is read from its hexadecimal digits. -/
theorem escaped?_control (h : isControl c = true) (tail : List Char) :
    escaped? ('u' :: '0' :: '0' :: hexDigit (c.toNat / 16) :: hexDigit (c.toNat % 16) :: tail) =
      some (c, tail) := by
  have hlt := toNat_lt_of_isControl h
  have hnumber : hexNumber? ['0', '0', hexDigit (c.toNat / 16), hexDigit (c.toNat % 16)] =
      some c.toNat := by
    have hzero : Text.hexValue? '0' = some 0 := rfl
    simp [hexNumber?, hzero, hexValue?_hexDigit (n := c.toNat / 16) (by omega),
      hexValue?_hexDigit (n := c.toNat % 16) (by omega)]
    omega
  have hvalid : c.toNat.isValidChar := c.valid
  show scalar? 4 _ = _
  simp [scalar?, hnumber, hvalid]

/-- An escaped character is a piece, unless it is a quote that needs no escape. -/
theorem piece_escape (h : ¬ (c = '"' ∧ run < q.quotes)) :
    Piece q.multiline c (escape q run [c]) := by
  have pair : ∀ {c e : Char}, e ∉ [' ', '\t', '\n', '\r'] →
      (∀ tail, escaped? (e :: tail) = some (c, tail)) → Piece q.multiline c ['\\', e] :=
    fun he h => .escaped he (by simp) h
  unfold escape
  split
  · rw [if_neg fun hrun => h ⟨rfl, hrun⟩]
    exact pair (by decide) fun _ => rfl
  iterate 3 exact pair (by decide) fun _ => rfl
  · split
    · next hm => exact .line hm
    · exact pair (by decide) fun _ => rfl
  iterate 2 exact pair (by decide) fun _ => rfl
  · next hquote hslash _ _ hline _ _ =>
    split
    · next hcontrol =>
      have hlt := toNat_lt_of_isControl hcontrol
      have hzero : '0' ≠ '"' ∧ '0' ≠ '\\' := by decide
      refine .escaped (by decide) ?_ (escaped?_control hcontrol)
      simp only [List.forall_mem_cons]
      exact ⟨hzero, hzero, hexDigit_plain (by omega), hexDigit_plain (by omega), by simp [escape]⟩
    · next hcontrol => exact .plain hquote hslash (isPrintable_of_not_isControl hcontrol hline)

theorem piece_head (h : Piece multiline c w) : ∃ d more, w = d :: more ∧ d ≠ '"' ∧ d ≠ '\r' ∧
    (d = '\n' → c = '\n') := by
  cases h with
  | plain hquote _ h => exact ⟨c, [], rfl, hquote, (by rintro rfl; cases h), id⟩
  | line _ => exact ⟨'\n', [], rfl, by decide, by decide, fun _ => rfl⟩
  | escaped => exact ⟨'\\', _, rfl, by decide, by decide, fun h => absurd h (by decide)⟩

/-- The body of an escaped text on one line ends at its closing quote. -/
theorem lineBody_escape (hq : q.quotes = 0) (cs rest : List Char) :
    lineBody true (escape q 0 cs ++ '"' :: rest) = some (escape q 0 cs, rest) := by
  induction cs with
  | nil => rfl
  | cons c cs ih =>
    have hnot : ¬ (c = '"' ∧ 0 < q.quotes) := fun h => by omega
    have hpasses : Passes (lineBody true) (escape q 0 [c]) :=
      (piece_escape hnot).passes (fun _ hquote hslash => lineBody_char hquote fun _ => hslash)
        lineBody_pair
    rw [escape_cons, nextRun, if_neg hnot, List.append_assoc, hpasses, ih]
    rfl

/-- The body of an escaped text between triple quotes ends at the closing ones. -/
theorem linesBody_escape (hq : q.quotes ≤ 2) (hrun : run ≤ q.quotes) (cs : List Char)
    (hrest : ∀ d ∈ rest.head?, d ≠ '"') :
    linesBody true (List.replicate run '"' ++ (escape q run cs ++ (List.replicate 3 '"' ++ rest))) =
      some (List.replicate run '"' ++ escape q run cs, rest) := by
  induction cs generalizing run with
  | nil =>
    rw [escape, List.append_nil]
    exact linesBody_close rfl (by omega) hrest
  | cons c cs ih =>
    by_cases hc : c = '"' ∧ run < q.quotes
    · have hquote : escape q run [c] = ['"'] := by
        rw [hc.1, escape, if_pos hc.2, escape]
      have hmove : ∀ tail, List.replicate run '"' ++ ('"' :: tail) =
          List.replicate (run + 1) '"' ++ tail := by
        intro tail
        rw [List.replicate_succ', List.append_assoc]
        rfl
      rw [escape_cons, nextRun, if_pos hc, hquote, List.singleton_append, List.cons_append, hmove,
        hmove, ih (by omega)]
    · have hpiece := piece_escape hc
      obtain ⟨d, more, hd, hne, -⟩ := piece_head hpiece
      have hpasses : Passes (linesBody true) (escape q run [c]) :=
        hpiece.passes (fun _ hquote hslash => linesBody_char hquote fun _ => hslash) linesBody_pair
      have hcs := ih (Nat.zero_le q.quotes)
      rw [List.replicate_zero, List.nil_append, List.nil_append] at hcs
      rw [escape_cons, nextRun, if_neg hc, List.append_assoc]
      have hstop : ∀ e ∈ (escape q run [c] ++
          (escape q 0 cs ++ (List.replicate 3 '"' ++ rest))).head?, e ≠ '"' := by
        rw [hd]
        simpa using hne
      rw [linesBody_quotes (m := '"') rfl (by omega) hstop, hpasses, hcs]
      rfl

/-- An escaped text is read as the text. -/
theorem unescapeWithin_escape (q : Quoting) (run : Nat) (cs : List Char) (fuel : Nat)
    (hf : (escape q run cs).length < fuel) :
    unescapeWithin true q.multiline fuel (escape q run cs) = some cs := by
  induction cs generalizing run fuel with
  | nil =>
    obtain ⟨fuel, rfl⟩ : ∃ f, fuel = f + 1 := ⟨fuel - 1, by omega⟩
    rfl
  | cons c cs ih =>
    rw [escape_cons, List.length_append] at hf
    rw [escape_cons]
    by_cases hc : c = '"' ∧ run < q.quotes
    · have hquote : escape q run [c] = ['"'] := by
        rw [hc.1, escape, if_pos hc.2, escape]
      rw [hquote, List.length_singleton] at hf
      obtain ⟨fuel, rfl⟩ : ∃ f, fuel = f + 1 := ⟨fuel - 1, by omega⟩
      rw [hquote, List.singleton_append, unescapeWithin_printable (by simp) rfl,
        ih _ _ (by omega), hc.1]
      rfl
    · obtain ⟨d, more, hd, -⟩ := piece_head (piece_escape hc)
      rw [hd, List.length_cons] at hf
      obtain ⟨fuel, rfl⟩ : ∃ f, fuel = f + 1 := ⟨fuel - 1, by omega⟩
      rw [(piece_escape hc).unescapeWithin_append, ih _ _ (by omega)]
      rfl

/-! ## Texts without escapes -/

theorem lineBody_literal (h : '\'' ∉ cs) (rest : List Char) :
    lineBody false (cs ++ '\'' :: rest) = some (cs, rest) := by
  have hpasses : Passes (lineBody false) cs :=
    .of_forall fun c hc => lineBody_char (fun heq : c = '\'' => h (heq ▸ hc)) (by simp)
  have hclose : lineBody false ('\'' :: rest) = some ([], rest) := rfl
  rw [hpasses, hclose]
  simp

/-- The body of a text between triple apostrophes ends at the closing ones. -/
theorem linesBody_literal (hrun : longestRun '\'' run cs ≤ 2)
    (hrest : ∀ d ∈ rest.head?, d ≠ '\'') :
    linesBody false (List.replicate run '\'' ++ (cs ++ (List.replicate 3 '\'' ++ rest))) =
      some (List.replicate run '\'' ++ cs, rest) := by
  induction cs generalizing run with
  | nil =>
    rw [List.append_nil]
    exact linesBody_close rfl hrun hrest
  | cons c cs ih =>
    rw [longestRun] at hrun
    by_cases hc : c = '\''
    · have hmove : ∀ tail, List.replicate run '\'' ++ ('\'' :: tail) =
          List.replicate (run + 1) '\'' ++ tail := by
        intro tail
        rw [List.replicate_succ', List.append_assoc]
        rfl
      rw [if_pos hc] at hrun
      rw [hc, List.cons_append, hmove, hmove, ih hrun]
    · rw [if_neg hc] at hrun
      have hcs := ih (Nat.le_trans (Nat.le_max_right run _) hrun)
      have hpasses : Passes (linesBody false) [c] := linesBody_char hc (by simp)
      rw [List.replicate_zero, List.nil_append, List.nil_append] at hcs
      rw [List.cons_append, linesBody_quotes (m := '\'') rfl (by omega) (by simpa using hc),
        ← List.singleton_append, hpasses, hcs]
      rfl

/-- A text without escapes is read as it stands. -/
theorem unescapeWithin_literal (h : ∀ c ∈ cs, isPrintable c = true ∨ multiline = true ∧ c = '\n')
    (hf : cs.length < fuel) : unescapeWithin false multiline fuel cs = some cs := by
  induction cs generalizing fuel with
  | nil =>
    obtain ⟨fuel, rfl⟩ : ∃ f, fuel = f + 1 := ⟨fuel - 1, by omega⟩
    rfl
  | cons c cs ih =>
    rw [List.forall_mem_cons] at h
    rw [List.length_cons] at hf
    obtain ⟨fuel, rfl⟩ : ∃ f, fuel = f + 1 := ⟨fuel - 1, by omega⟩
    have hcs := ih h.2 (by omega : cs.length < fuel)
    rcases h.1 with hc | ⟨hm, rfl⟩
    · rw [unescapeWithin_printable (by simp) hc, hcs]
      rfl
    · rw [unescapeWithin_newline hm, hcs]
      rfl

/-! ## Quoting -/

theorem longestRun_eq_zero (h : longestRun c run cs = 0) : c ∉ cs := by
  induction cs generalizing run with
  | nil => simp
  | cons d cs ih =>
    have hpos : ∀ run cs, run ≤ longestRun c run cs := by
      intro run cs
      induction cs generalizing run with
      | nil => exact Nat.le_refl _
      | cons d cs ih =>
        rw [longestRun]
        split
        · exact Nat.le_trans (Nat.le_succ _) (ih _)
        · exact Nat.le_max_left _ _
    rw [longestRun] at h
    split at h
    · have := hpos (run + 1) cs
      omega
    · next hd =>
      rw [Nat.max_eq_zero_iff] at h
      rw [List.mem_cons, not_or]
      exact ⟨fun heq => hd heq.symm, ih h.2⟩

/-- Escapes are of no need in a text that is quoted without them. -/
theorem Quoting.choose_cases (cs : List Char) :
    choose cs = .basic ∨ choose cs = .basicLines ∨
      (choose cs = .literal ∧ (∀ c ∈ cs, isPrintable c = true) ∧ '\'' ∉ cs) ∨
      (choose cs = .literalLines ∧ (∀ c ∈ cs, isPrintable c = true ∨ c = '\n') ∧
        longestRun '\'' 0 cs ≤ 2) := by
  unfold choose
  dsimp only
  split
  · exact Or.inl rfl
  split
  · next h =>
    simp only [Bool.and_eq_true, Bool.not_eq_true', beq_iff_eq, List.any_eq_false] at h
    obtain ⟨⟨hcontrol, hline⟩, hrun⟩ := h
    refine Or.inr (Or.inr (Or.inl ⟨rfl, fun c hc => ?_, longestRun_eq_zero hrun⟩))
    refine isPrintable_of_not_isControl (hcontrol c hc) ?_
    rintro rfl
    simp [hc] at hline
  split
  · exact Or.inr (Or.inl rfl)
  split
  · next h =>
    simp only [Bool.and_eq_true, Bool.not_eq_true', decide_eq_true_eq, List.any_eq_false] at h
    refine Or.inr (Or.inr (Or.inr ⟨rfl, fun c hc => ?_, h.2⟩))
    by_cases hline : c = '\n'
    · exact Or.inr hline
    · exact Or.inl (isPrintable_of_not_isControl (h.1 c hc) hline)
  split
  · exact Or.inr (Or.inl rfl)
  · exact Or.inl rfl

theorem quoted?_basic (h : ∀ tail, cs ≠ '"' :: '"' :: tail) :
    quoted? ('"' :: cs) = lineText? true cs := by
  unfold quoted?
  split
  · next heq => exact absurd (List.cons.inj heq).2 (h _)
  · next heq => exact absurd (List.cons.inj heq).1 (by decide)
  · next heq => rw [(List.cons.inj heq).2]
  · next heq => exact absurd (List.cons.inj heq).1 (by decide)
  · next hq _ => exact absurd rfl (hq cs)

theorem quoted?_literal (h : ∀ tail, cs ≠ '\'' :: '\'' :: tail) :
    quoted? ('\'' :: cs) = lineText? false cs := by
  unfold quoted?
  split
  · next heq => exact absurd (List.cons.inj heq).1 (by decide)
  · next heq => exact absurd (List.cons.inj heq).2 (h _)
  · next heq => exact absurd (List.cons.inj heq).1 (by decide)
  · next heq => rw [(List.cons.inj heq).2]
  · next hq => exact absurd rfl (hq cs)

/-- An escaped text begins with a line end only if the text does. -/
theorem newline?_escape (h : '\n' ∉ cs) (tail : List Char) :
    newline? (escape q 0 cs ++ '"' :: tail) = none := by
  cases cs with
  | nil => rfl
  | cons c cs =>
    rw [List.mem_cons, not_or] at h
    rw [escape_cons]
    by_cases hc : c = '"' ∧ 0 < q.quotes
    · have hquote : escape q 0 [c] = ['"'] := by
        rw [hc.1, escape, if_pos hc.2, escape]
      rw [hquote]
      rfl
    · obtain ⟨d, more, hd, -, hreturn, hline⟩ := piece_head (piece_escape hc)
      rw [hd]
      exact newline?_eq_none (fun heq => h.1 (hline heq).symm) hreturn

/-- The line end at the head of a text that runs over several lines is passed over. -/
theorem getD_newline? (b : Bool) (h : b = false → newline? tail = none) :
    (newline? ((if b then ['\n'] else []) ++ tail)).getD ((if b then ['\n'] else []) ++ tail) =
      tail := by
  cases b
  · simp [h rfl]
  · rfl

/-! ## The four ways to quote -/

/-- An escaped text on one line does not begin with three quotes. -/
theorem basic_ne_quotes (cs : List Char) (hrest : ∀ d ∈ rest.head?, d ≠ '"') (tail : List Char) :
    escape .basic 0 cs ++ '"' :: rest ≠ '"' :: '"' :: tail := by
  cases cs with
  | nil =>
    intro heq
    exact hrest '"' (by rw [(List.cons.inj heq).2]; rfl) rfl
  | cons c cs =>
    have hnot : ¬ (c = '"' ∧ 0 < Quoting.basic.quotes) := fun h => absurd h.2 (Nat.lt_irrefl 0)
    obtain ⟨d, more, hd, hne, -⟩ := piece_head (piece_escape hnot)
    rw [escape_cons, hd]
    simp [hne]

theorem quoted?_basicText (cs : List Char) (hrest : ∀ d ∈ rest.head?, d ≠ '"') :
    quoted? ('"' :: (escape .basic 0 cs ++ '"' :: rest)) = some (String.ofList cs, rest) := by
  have hread : unescape true false (escape .basic 0 cs) = some cs :=
    unescapeWithin_escape .basic 0 cs _ (Nat.lt_succ_self _)
  rw [quoted?_basic (basic_ne_quotes cs hrest), lineText?, lineBody_escape rfl]
  simp [hread]

theorem linesText?_basicLines (cs : List Char) (hrest : ∀ d ∈ rest.head?, d ≠ '"') :
    linesText? true ((if cs.contains '\n' then ['\n'] else []) ++
      (escape .basicLines 0 cs ++ (List.replicate 3 '"' ++ rest))) =
        some (String.ofList cs, rest) := by
  have hline : cs.contains '\n' = false →
      newline? (escape .basicLines 0 cs ++ (List.replicate 3 '"' ++ rest)) = none :=
    fun hno => newline?_escape (by simpa using hno) _
  have hbody := linesBody_escape (q := .basicLines) (Nat.le_refl 2) (Nat.zero_le _) cs hrest
  have hread : unescape true true (escape .basicLines 0 cs) = some cs :=
    unescapeWithin_escape .basicLines 0 cs _ (Nat.lt_succ_self _)
  rw [List.replicate_zero, List.nil_append, List.nil_append] at hbody
  rw [linesText?, getD_newline? _ hline, hbody]
  simp [hread]

theorem quoted?_literalText (hprint : ∀ c ∈ cs, isPrintable c = true) (hmark : '\'' ∉ cs)
    (hrest : ∀ d ∈ rest.head?, d ≠ '\'') :
    quoted? ('\'' :: (cs ++ '\'' :: rest)) = some (String.ofList cs, rest) := by
  have hfront : ∀ tail, cs ++ '\'' :: rest ≠ '\'' :: '\'' :: tail := by
    intro tail
    cases cs with
    | nil =>
      intro heq
      exact hrest '\'' (by rw [(List.cons.inj heq).2]; rfl) rfl
    | cons c cs =>
      rw [List.mem_cons, not_or] at hmark
      simp [Ne.symm hmark.1]
  have hread : unescape false false cs = some cs :=
    unescapeWithin_literal (fun c hc => Or.inl (hprint c hc)) (Nat.lt_succ_self _)
  rw [quoted?_literal hfront, lineText?, lineBody_literal hmark]
  simp [hread]

theorem linesText?_literalLines (hprint : ∀ c ∈ cs, isPrintable c = true ∨ c = '\n')
    (hrun : longestRun '\'' 0 cs ≤ 2) (hrest : ∀ d ∈ rest.head?, d ≠ '\'') :
    linesText? false ((if cs.contains '\n' then ['\n'] else []) ++
      (cs ++ (List.replicate 3 '\'' ++ rest))) = some (String.ofList cs, rest) := by
  have hline : cs.contains '\n' = false →
      newline? (cs ++ (List.replicate 3 '\'' ++ rest)) = none := by
    intro hno
    cases cs with
    | nil => rfl
    | cons c cs =>
      rcases hprint c List.mem_cons_self with hc | rfl
      · exact newline?_of_isPrintable hc
      · simp at hno
  have hbody := linesBody_literal hrun hrest
  have hread : unescape false true cs = some cs :=
    unescapeWithin_literal (fun c hc => (hprint c hc).imp id fun h => ⟨rfl, h⟩)
      (Nat.lt_succ_self _)
  rw [List.replicate_zero, List.nil_append, List.nil_append] at hbody
  rw [linesText?, getD_newline? _ hline, hbody]
  simp [hread]

/-- A text in quotes is read up to the closing ones. -/
theorem quoted?_quote (s : String) (rest : List Char) :
    quoted? (quote s ++ '\n' :: rest) = some (s, '\n' :: rest) := by
  have hstop : ∀ m : Char, m ≠ '\n' → ∀ d ∈ ('\n' :: rest).head?, d ≠ m := by
    simpa using fun m hm => Ne.symm hm
  have hquote := hstop '"' (by decide)
  have hmark := hstop '\'' (by decide)
  rcases Quoting.choose_cases s.toList with h | h | ⟨h, hprint, hno⟩ | ⟨h, hprint, hrun⟩
  · have hcs : quote s ++ '\n' :: rest =
        '"' :: (escape .basic 0 s.toList ++ '"' :: '\n' :: rest) := by
      simp [quote, h, Quoting.basic]
    rw [hcs, quoted?_basicText _ hquote, String.ofList_toList]
  · have hcs : quote s ++ '\n' :: rest = '"' :: '"' :: '"' ::
        ((if s.toList.contains '\n' then ['\n'] else []) ++
          (escape .basicLines 0 s.toList ++ (List.replicate 3 '"' ++ '\n' :: rest))) := by
      simp [quote, h, Quoting.basicLines, List.replicate]
    rw [hcs]
    show linesText? true _ = _
    rw [linesText?_basicLines _ hquote, String.ofList_toList]
  · have hcs : quote s ++ '\n' :: rest = '\'' :: (s.toList ++ '\'' :: '\n' :: rest) := by
      simp [quote, h, Quoting.literal]
    rw [hcs, quoted?_literalText hprint hno hmark, String.ofList_toList]
  · have hcs : quote s ++ '\n' :: rest = '\'' :: '\'' :: '\'' ::
        ((if s.toList.contains '\n' then ['\n'] else []) ++
          (s.toList ++ (List.replicate 3 '\'' ++ '\n' :: rest))) := by
      simp [quote, h, Quoting.literalLines, List.replicate]
    rw [hcs]
    show linesText? false _ = _
    rw [linesText?_literalLines hprint hrun hmark, String.ofList_toList]

end TrackPlan.Toml
