import TrackPlan.Proofs.Record.Entries
import TrackPlan.Proofs.Text.Numeral
import TrackPlan.Record.Writer

/-!
# Written records read back

What is written of records describes these records, one on each line, as long as the names in them
are words.

1. `Record.oneLine_write`: the plain spelling of a record spells its pieces, on one line.
2. `Record.spelledBy_write`: so it spells the record, since no blank is at either end of it.
3. `describes_writeAll` is the run over the lines.
-/

namespace TrackPlan

open Text Piece

/-- The text can stand as a name: a run of letters, digits and underscores. -/
def IsName (s : String) : Prop := s.toList ≠ [] ∧ ∀ c ∈ s.toList, isWordChar c = true

namespace Piece

variable {ps ps' : List Piece} {parts : List (List Char)} {cs : List Char}

/-- The piece is spelled without a line feed. -/
def Plain (p : Piece) (cs : List Char) : Prop := p.Spelled cs ∧ '\n' ∉ cs

/-- The pieces are spelled on one line. -/
structure OneLine (ps : List Piece) (cs : List Char) : Prop where
  spells : Spells ps cs
  newline_notMem : '\n' ∉ cs

theorem OneLine.append {cs' : List Char} (h : OneLine ps cs) (h' : OneLine ps' cs') :
    OneLine (ps ++ ps') (cs ++ cs') :=
  ⟨spells_append.2 ⟨_, _, rfl, h.spells, h'.spells⟩,
    List.not_mem_append h.newline_notMem h'.newline_notMem⟩

/-- Pieces are spelled part by part. -/
theorem oneLine_of_parts (h : List.Forall₂ Plain ps parts) (hcs : cs = parts.flatten) :
    OneLine ps cs := by
  subst hcs
  induction h with
  | nil => exact ⟨rfl, List.not_mem_nil⟩
  | cons hp _ ih =>
    exact ⟨⟨_, _, rfl, hp.1, ih.spells⟩, List.not_mem_append hp.2 ih.newline_notMem⟩

theorem plain_blanks_nil : blanks.Plain [] :=
  ⟨fun _ h => absurd h List.not_mem_nil, List.not_mem_nil⟩

theorem plain_blanks_space : blanks.Plain [' '] := by
  refine ⟨fun c hc => ?_, by decide⟩
  rw [List.mem_singleton.1 hc]
  decide

theorem plain_gap_space : gap.Plain [' '] :=
  ⟨⟨by simp, plain_blanks_space.1⟩, plain_blanks_space.2⟩

theorem plain_word {s : String} (h : IsName s) : (word s).Plain s.toList :=
  ⟨⟨rfl, h⟩, fun hn => absurd (h.2 _ hn) (by decide)⟩

theorem plain_number (n : Nat) : (number n).Plain (ofNat n) :=
  ⟨⟨decimal_ofNat n, ofNat_ne_nil n, fun _ => isDigit_of_mem_ofNat⟩,
    fun hn => absurd (isDigit_of_mem_ofNat hn) (by decide)⟩

theorem plain_lit {s : String} (h : '\n' ∉ s.toList) : (lit s).Plain s.toList := ⟨rfl, h⟩

/-- The last piece ends what is spelled. -/
theorem getLast?_of_spells {p : Piece} (h : Spells ps cs) (hp : ps.getLast? = some p)
    (hne : ∀ t, p.Spelled t → t ≠ []) : ∃ t, p.Spelled t ∧ cs.getLast? = t.getLast? := by
  obtain ⟨front, rfl⟩ := List.getLast?_eq_some_iff.1 hp
  obtain ⟨a, b, rfl, -, t, _, rfl, ht, rfl⟩ := spells_append.1 h
  exact ⟨t, ht, by rw [List.append_nil, List.getLast?_append_of_ne_nil _ (hne t ht)]⟩

end Piece

namespace Record

variable {record : Record}

/-- The names in a record. -/
def names : Record → List String
  | sensors f b => [f.name, f.ahead, b.name, b.ahead]
  | separators f b => [f.name, f.ahead, b.name, b.ahead]
  | switch branch _ straight curved merge ahead => [branch, straight, curved, merge, ahead]
  | terminal enter ahead exit => [enter, ahead, exit]
  | distance src dest _ => [src, dest]
  | mutex edges => edges.flatMap fun e => [e.1, e.2]
  | calibration node => [node]

/-- The names in the record are words. -/
def Named (record : Record) : Prop := ∀ s ∈ record.names, IsName s

/-! ## The plain spelling of a record -/

/-- One half of a sensor record, part by part. -/
theorem plain_numbered {name ahead : String} (hname : IsName name) (hahead : IsName ahead)
    (n : Nat) : List.Forall₂ Plain (numbered name n [word ahead])
      [name.toList, [' '], ":".toList, [' '], ofNat n, [' '], "->".toList, [' '], ahead.toList] :=
  .cons (plain_word hname) <| .cons plain_blanks_space <| .cons (plain_lit (by decide)) <|
    .cons plain_blanks_space <| .cons (plain_number n) <| .cons plain_blanks_space <|
      .cons (plain_lit (by decide)) <| .cons plain_blanks_space <| .cons (plain_word hahead) .nil

/-- One half of a separator record, part by part. -/
theorem plain_following {name ahead : String} (hname : IsName name) (hahead : IsName ahead) :
    List.Forall₂ Plain (following name ahead)
      [name.toList, [' '], "->".toList, [' '], ahead.toList] :=
  .cons (plain_word hname) <| .cons plain_blanks_space <| .cons (plain_lit (by decide)) <|
    .cons plain_blanks_space <| .cons (plain_word hahead) .nil

theorem plain_keyword {w : String} (h : '\n' ∉ w.toList) :
    List.Forall₂ Plain (Piece.keyword w) [w.toList, [' ']] :=
  .cons (plain_lit h) <| .cons plain_gap_space .nil

theorem plain_mark {m : String} (h : '\n' ∉ m.toList) :
    List.Forall₂ Plain (Piece.mark m) [[' '], m.toList, [' ']] :=
  .cons plain_blanks_space <| .cons (plain_lit h) <| .cons plain_blanks_space .nil

theorem plain_pair {e : String × String} (h₁ : IsName e.1) (h₂ : IsName e.2) :
    List.Forall₂ Plain (pair e) [e.1.toList, [' '], e.2.toList] :=
  .cons (plain_word h₁) <| .cons plain_gap_space <| .cons (plain_word h₂) .nil

/-- The entries of a mutex record. -/
theorem oneLine_intercalate {edges : List (String × String)}
    (h : ∀ e ∈ edges, IsName e.1 ∧ IsName e.2) :
    OneLine (pairs edges) (" : ".intercalate (edges.map fun e => e.1 ++ " " ++ e.2)).toList := by
  induction edges with
  | nil => exact ⟨rfl, List.not_mem_nil⟩
  | cons e rest ih =>
    rw [List.forall_mem_cons] at h
    have hpair : OneLine (pair e) (e.1 ++ " " ++ e.2).toList :=
      oneLine_of_parts (plain_pair h.1.1 h.1.2) (by simp)
    cases rest with
    | nil =>
      rw [List.map_cons, List.map_nil, String.intercalate_singleton]
      exact hpair
    | cons e' rest =>
      have hcolon : OneLine (Piece.mark ":") " : ".toList :=
        oneLine_of_parts (plain_mark (by decide)) rfl
      rw [List.map_cons, List.map_cons, String.intercalate_cons_cons, String.toList_append,
        String.toList_append, List.append_assoc, pairs]
      exact hpair.append (hcolon.append (ih h.2))

theorem oneLine_sensors {f b : SensorHalf} (hname : IsName f.name) (hahead : IsName f.ahead)
    (hname' : IsName b.name) (hahead' : IsName b.ahead) :
    OneLine (sensors f b).pieces (sensors f b).write.toList := by
  have htext : write (.sensors f b) = "sensor " ++ (f.name ++ " : " ++ f.address.toNat.repr ++
      " -> " ++ f.ahead) ++ " @ " ++ (b.name ++ " : " ++ b.address.toNat.repr ++ " -> " ++
        b.ahead) := rfl
  rw [htext]
  refine oneLine_of_parts (List.rel_append (plain_keyword (by decide))
    (List.rel_append (plain_numbered hname hahead f.address.toNat)
      (List.rel_append (plain_mark (by decide))
        (plain_numbered hname' hahead' b.address.toNat)))) ?_
  simp [ofNat]

theorem oneLine_separators {f b : SeparatorHalf} (hname : IsName f.name) (hahead : IsName f.ahead)
    (hname' : IsName b.name) (hahead' : IsName b.ahead) :
    OneLine (separators f b).pieces (separators f b).write.toList := by
  have htext : write (.separators f b) = "sep " ++ (f.name ++ " -> " ++ f.ahead) ++ " @ " ++
      (b.name ++ " -> " ++ b.ahead) := rfl
  rw [htext]
  refine oneLine_of_parts (List.rel_append (plain_keyword (by decide))
    (List.rel_append (plain_following hname hahead)
      (List.rel_append (plain_mark (by decide)) (plain_following hname' hahead')))) ?_
  simp

theorem oneLine_switch {branch straight curved merge ahead : String} (hbranch : IsName branch)
    (hstraight : IsName straight) (hcurved : IsName curved) (hmerge : IsName merge)
    (hahead : IsName ahead) (number : UInt32) :
    OneLine (switch branch number straight curved merge ahead).pieces
      (switch branch number straight curved merge ahead).write.toList := by
  have hopen : List.Forall₂ Plain (marks ["/", "("]) [[], "/".toList, [], "(".toList, []] :=
    .cons plain_blanks_nil <| .cons (plain_lit (by decide)) <| .cons plain_blanks_nil <|
      .cons (plain_lit (by decide)) <| .cons plain_blanks_nil .nil
  have hclose : List.Forall₂ Plain (marks [")", "@"])
      [[], ")".toList, [' '], "@".toList, [' ']] :=
    .cons plain_blanks_nil <| .cons (plain_lit (by decide)) <| .cons plain_blanks_space <|
      .cons (plain_lit (by decide)) <| .cons plain_blanks_space .nil
  have hway : List.Forall₂ Plain [word curved] [curved.toList] := .cons (plain_word hcurved) .nil
  have htext : write (.switch branch number straight curved merge ahead) = "switch " ++ branch ++
      " : " ++ number.toNat.repr ++ " -> " ++ straight ++ "/(" ++ curved ++ ") @ " ++ merge ++
        " -> " ++ ahead := rfl
  rw [htext]
  refine oneLine_of_parts (List.rel_append (plain_keyword (by decide))
    (List.rel_append (plain_numbered hbranch hstraight number.toNat)
      (List.rel_append hopen (List.rel_append hway
        (List.rel_append hclose (plain_following hmerge hahead)))))) ?_
  simp [ofNat]

theorem oneLine_terminal {enter ahead exit : String} (henter : IsName enter)
    (hahead : IsName ahead) (hexit : IsName exit) :
    OneLine (terminal enter ahead exit).pieces (terminal enter ahead exit).write.toList := by
  have hout : List.Forall₂ Plain [word exit] [exit.toList] := .cons (plain_word hexit) .nil
  have htext : write (.terminal enter ahead exit) =
      "enter " ++ enter ++ " -> " ++ ahead ++ " @ " ++ exit := rfl
  rw [htext]
  refine oneLine_of_parts (List.rel_append (plain_keyword (by decide))
    (List.rel_append (plain_following henter hahead)
      (List.rel_append (plain_mark (by decide)) hout))) ?_
  simp

theorem oneLine_distance {src dest : String} (hsrc : IsName src) (hdest : IsName dest)
    (millimeters : UInt32) :
    OneLine (distance src dest millimeters).pieces
      (distance src dest millimeters).write.toList := by
  have hlength : List.Forall₂ Plain [gap, number millimeters.toNat, blanks, lit "mm"]
      [[' '], ofNat millimeters.toNat, [], "mm".toList] :=
    .cons plain_gap_space <| .cons (plain_number _) <| .cons plain_blanks_nil <|
      .cons (plain_lit (by decide)) .nil
  have htext : write (.distance src dest millimeters) =
      "dist " ++ src ++ " " ++ dest ++ " " ++ millimeters.toNat.repr ++ "mm" := rfl
  rw [htext]
  refine oneLine_of_parts (List.rel_append (plain_keyword (by decide))
    (List.rel_append (@plain_pair (src, dest) hsrc hdest) hlength)) ?_
  simp [ofNat]

theorem oneLine_mutex {edges : List (String × String)}
    (h : ∀ e ∈ edges, IsName e.1 ∧ IsName e.2) :
    OneLine (mutex edges).pieces (mutex edges).write.toList := by
  have hkeyword : OneLine (Piece.keyword "mutex") "mutex ".toList :=
    oneLine_of_parts (plain_keyword (by decide)) rfl
  have htext : write (.mutex edges) =
      "mutex " ++ " : ".intercalate (edges.map fun e => e.1 ++ " " ++ e.2) := rfl
  rw [htext, String.toList_append]
  exact hkeyword.append (oneLine_intercalate h)

theorem oneLine_calibration {node : String} (h : IsName node) :
    OneLine (calibration node).pieces (calibration node).write.toList := by
  have hnode : List.Forall₂ Plain [word node] [node.toList] := .cons (plain_word h) .nil
  have htext : write (.calibration node) = "calib " ++ node := rfl
  rw [htext]
  refine oneLine_of_parts (List.rel_append (plain_keyword (by decide)) hnode) ?_
  simp

/-- A record is spelled by what is written of it. -/
theorem oneLine_write (h : record.Named) : OneLine record.pieces record.write.toList := by
  unfold Named at h
  cases record with
  | sensors f b =>
    simp only [names, List.forall_mem_cons] at h
    exact oneLine_sensors h.1 h.2.1 h.2.2.1 h.2.2.2.1
  | separators f b =>
    simp only [names, List.forall_mem_cons] at h
    exact oneLine_separators h.1 h.2.1 h.2.2.1 h.2.2.2.1
  | switch branch number straight curved merge ahead =>
    simp only [names, List.forall_mem_cons] at h
    obtain ⟨hbranch, hstraight, hcurved, hmerge, hahead, -⟩ := h
    exact oneLine_switch hbranch hstraight hcurved hmerge hahead number
  | terminal enter ahead exit =>
    simp only [names, List.forall_mem_cons] at h
    exact oneLine_terminal h.1 h.2.1 h.2.2.1
  | distance src dest millimeters =>
    simp only [names, List.forall_mem_cons] at h
    exact oneLine_distance h.1 h.2.1 millimeters
  | mutex edges =>
    refine oneLine_mutex fun e he => ?_
    have hmem : ∀ s ∈ [e.1, e.2], IsName s := fun s hs => h s (List.mem_flatMap.2 ⟨e, he, hs⟩)
    exact ⟨hmem e.1 (by simp), hmem e.2 (by simp)⟩
  | calibration node =>
    simp only [names, List.forall_mem_cons] at h
    exact oneLine_calibration h.1

/-! ## A line of its own -/

/-- What a word or a unit ends with is no blank. -/
theorem exists_last {cs : List Char} (h : Spells record.pieces cs) (hs : record.Sound) :
    ∀ c ∈ cs.getLast?, isBlank c = false := by
  have hword : ∀ {s}, record.pieces.getLast? = some (word s) →
      ∀ c ∈ cs.getLast?, isBlank c = false := by
    intro s hp
    obtain ⟨t, ht, hlast⟩ := getLast?_of_spells h hp fun t ht => ht.2.1
    rw [hlast]
    exact (bare_of_spelled_word ht).2
  cases record with
  | sensors f b => exact hword rfl
  | separators f b => exact hword rfl
  | switch => exact hword rfl
  | terminal => exact hword rfl
  | calibration => exact hword rfl
  | distance src dest millimeters =>
    have hp : (distance src dest millimeters).pieces.getLast? = some (lit "mm") := rfl
    have hunit : ∀ t, (lit "mm").Spelled t → t = ['m', 'm'] := fun t ht => ht
    obtain ⟨t, ht, hlast⟩ := getLast?_of_spells h hp fun t ht => by simp [hunit t ht]
    rw [hlast, hunit t ht, List.getLast?_cons_cons]
    rintro c ⟨⟩
    decide
  | mutex edges =>
    obtain ⟨e, rest, rfl⟩ := List.exists_cons_of_ne_nil hs
    obtain ⟨a, b, rfl, -, hb⟩ := spells_append.1 h
    obtain ⟨hbare, hne⟩ := bare_of_spells_pairs hb
    rw [List.getLast?_append_of_ne_nil _ hne]
    exact hbare.2

theorem bare_of_spells {cs : List Char} (h : Spells record.pieces cs) (hs : record.Sound) :
    Bare cs := by
  have hhead : ∃ w ps, record.pieces = lit w :: ps ∧ ∃ c, w.toList.head? = some c ∧
      isBlank c = false := by
    cases record <;> exact ⟨_, _, rfl, _, rfl, by decide⟩
  refine ⟨fun c hc => ?_, exists_last h hs⟩
  obtain ⟨w, ps, hpieces, d, hd, hblank⟩ := hhead
  rw [hpieces] at h
  obtain ⟨_, back, rfl, rfl, -⟩ := h
  rw [List.head?_append, hd, Option.some_or, Option.mem_def, Option.some.injEq] at hc
  exact hc ▸ hblank

/-- What is written of a record is read as the record. -/
theorem spelledBy_write (h : record.Named) (hs : record.Sound) :
    record.SpelledBy (trim record.write.toList) := by
  have hspells := (oneLine_write h).spells
  rw [(bare_of_spells hspells hs).trim_eq]
  exact ⟨hs, hspells⟩

end Record

/-! ## Many records -/

/-- A line feed ends a line, unless a carriage return comes before it. -/
theorem lines_append_newline {l rest : List Char} (h : '\n' ∉ l)
    (hlast : ∀ c ∈ l.getLast?, c ≠ '\r') : lines (l ++ '\n' :: rest) = l :: lines rest := by
  induction l with
  | nil => exact lines_newline rest
  | cons c l ih =>
    rw [List.mem_cons, not_or] at h
    have hlines : lines (l ++ '\n' :: rest) = l :: lines rest := by
      refine ih h.2 fun d hd => hlast d ?_
      cases l with
      | nil => cases hd
      | cons e l => rwa [List.getLast?_cons_cons]
    have hreturn : ¬ (c = '\r' ∧ (l ++ '\n' :: rest).head? = some '\n') := by
      rintro ⟨rfl, hhead⟩
      cases l with
      | nil => exact hlast '\r' rfl rfl
      | cons e l =>
        rw [List.cons_append, List.head?_cons, Option.some.injEq] at hhead
        exact h.2 (hhead ▸ List.mem_cons_self)
    rw [List.cons_append, lines, if_neg (Ne.symm h.1), if_neg hreturn, hlines]

/-- The records, numbered from the given number. -/
def numberedFrom (n : Nat) : List Record → List LineRecord
  | [] => []
  | record :: rest => ⟨n, record⟩ :: numberedFrom (n + 1) rest

theorem writeAll_cons (record : Record) (rest : List Record) :
    Record.writeAll (record :: rest) = record.write ++ "\n" ++ Record.writeAll rest := by
  apply String.toList_injective
  simp [Record.writeAll]

theorem writeAll_append (records more : List Record) :
    Record.writeAll (records ++ more) = Record.writeAll records ++ Record.writeAll more := by
  apply String.toList_injective
  simp [Record.writeAll]

theorem listing_writeAll {records : List Record} (h : ∀ r ∈ records, r.Named ∧ r.Sound) (n : Nat) :
    Listing n (lines (Record.writeAll records).toList) (numberedFrom n records) := by
  induction records generalizing n with
  | nil => exact .nil
  | cons record rest ih =>
    rw [List.forall_mem_cons] at h
    have hline := Record.oneLine_write h.1.1
    have hlast : ∀ c ∈ record.write.toList.getLast?, c ≠ '\r' := by
      rintro _ hc rfl
      exact absurd ((Record.bare_of_spells hline.spells h.1.2).2 _ hc) (by decide)
    have htext : (Record.writeAll (record :: rest)).toList =
        record.write.toList ++ '\n' :: (Record.writeAll rest).toList := by
      rw [writeAll_cons]
      simp
    rw [htext, lines_append_newline hline.newline_notMem hlast]
    exact .record (Record.spelledBy_write h.1.1 h.1.2) (ih h.2 (n + 1))

/-- **Written records.** What is written of records whose names are words describes them, one on
each line. -/
theorem describes_writeAll {records : List Record} (h : ∀ r ∈ records, r.Named ∧ r.Sound) :
    Describes (Record.writeAll records) (numberedFrom 1 records) :=
  listing_writeAll h 1

end TrackPlan
