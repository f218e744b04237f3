import TrackPlan.Proofs.Text
import TrackPlan.Record.Basic

/-!
# The grammar of records

A record is spelled by pieces, one after the other: words, numbers, fixed texts, and the blanks
between them. `Describes text records` says that the lines of a text hold just these records,
whatever reads them.

1. `Spells` says how pieces are spelled, and `Record.pieces` which pieces a record has.
2. `Follow` is the same with each piece taken as long as possible, which is how a scanner goes.
3. `spells_iff_follow`: where no piece can be mistaken for a part of the one before it, the two are
   the same.
-/

namespace TrackPlan

open Text

/-! ## Pieces of a line -/

/-- One piece of a line. -/
inductive Piece where
  /-- A run of letters, digits and underscores. -/
  | word (s : String)
  /-- A run of digits that denotes the number. -/
  | number (n : Nat)
  /-- A fixed text. -/
  | lit (s : String)
  /-- Blanks, none or more. -/
  | blanks
  /-- Blanks, at least one. -/
  | gap

namespace Piece

/-- The characters spell the piece. -/
def Spelled : Piece → List Char → Prop
  | word s, cs => cs = s.toList ∧ cs ≠ [] ∧ ∀ c ∈ cs, isWordChar c = true
  | number n, cs => decimal cs = n ∧ cs ≠ [] ∧ ∀ c ∈ cs, c.isDigit = true
  | lit s, cs => cs = s.toList
  | blanks, cs => ∀ c ∈ cs, isBlank c = true
  | gap, cs => cs ≠ [] ∧ ∀ c ∈ cs, isBlank c = true

/-- The characters spell the pieces one after the other. -/
def Spells : List Piece → List Char → Prop
  | [], cs => cs = []
  | p :: ps, cs => ∃ front back, cs = front ++ back ∧ p.Spelled front ∧ Spells ps back

/-- A keyword and the blanks that must follow it. -/
def keyword (w : String) : List Piece := [lit w, gap]

/-- Marks, with or without blanks around and between them. -/
def marks : List String → List Piece
  | [] => [blanks]
  | m :: rest => [blanks, lit m] ++ marks rest

/-- One mark, with or without blanks around it. -/
def mark (m : String) : List Piece := marks [m]

/-- Two names. -/
def pair (e : String × String) : List Piece := [word e.1, gap, word e.2]

/-- Pairs of names, with colons between them. -/
def pairs : List (String × String) → List Piece
  | [] => []
  | [e] => pair e
  | e :: e' :: rest => pair e ++ (mark ":" ++ pairs (e' :: rest))

/-- A name and what follows it. -/
def following (name ahead : String) : List Piece := [word name] ++ (mark "->" ++ [word ahead])

/-- A name, a number and what follows. -/
def numbered (name : String) (n : Nat) (ahead : List Piece) : List Piece :=
  [word name] ++ (mark ":" ++ ([number n] ++ (mark "->" ++ ahead)))

end Piece

open Piece

namespace Record

/-- The pieces of a record. -/
def pieces : Record → List Piece
  | sensors f b => keyword "sensor" ++ (numbered f.name f.address.toNat [word f.ahead] ++
      (mark "@" ++ numbered b.name b.address.toNat [word b.ahead]))
  | separators f b =>
    keyword "sep" ++ (following f.name f.ahead ++ (mark "@" ++ following b.name b.ahead))
  | switch branch n straight curved merge ahead =>
    keyword "switch" ++ (numbered branch n.toNat ([word straight] ++ (marks ["/", "("] ++
      ([word curved] ++ (marks [")", "@"] ++ following merge ahead)))))
  | terminal enter ahead exit =>
    keyword "enter" ++ (following enter ahead ++ (mark "@" ++ [word exit]))
  | distance src dest millimeters =>
    keyword "dist" ++ (pair (src, dest) ++ [gap, number millimeters.toNat, blanks, lit "mm"])
  | mutex edges => keyword "mutex" ++ pairs edges
  | calibration node => keyword "calib" ++ [word node]

/-- What the pieces do not say: a distance is positive, and a mutex record has an entry. -/
def Sound : Record → Prop
  | distance _ _ millimeters => millimeters ≠ 0
  | mutex edges => edges ≠ []
  | _ => True

/-- The characters are the record. -/
def SpelledBy (record : Record) (cs : List Char) : Prop := record.Sound ∧ Spells record.pieces cs

end Record

/-! ## Lines -/

/-- A line, apart from the blanks at either end, is nothing or a comment. -/
def Vacant (raw : List Char) : Prop := trim raw = [] ∨ (trim raw).head? = some '#'

/-- The lines, numbered from the given number, are vacant apart from those of the records. -/
inductive Listing : Nat → List (List Char) → List LineRecord → Prop
  | nil {n : Nat} : Listing n [] []
  | vacant {n : Nat} {raw : List Char} {rest : List (List Char)} {records : List LineRecord}
    (h : Vacant raw) (hrest : Listing (n + 1) rest records) : Listing n (raw :: rest) records
  | record {n : Nat} {raw : List Char} {rest : List (List Char)} {record : Record}
    {records : List LineRecord} (h : record.SpelledBy (trim raw))
    (hrest : Listing (n + 1) rest records) : Listing n (raw :: rest) (⟨n, record⟩ :: records)

/-- Every listed record is sound. -/
theorem Listing.sound {n : Nat} {ls : List (List Char)} {records : List LineRecord}
    (h : Listing n ls records) : ∀ entry ∈ records, entry.record.Sound := by
  induction h with
  | nil => exact fun _ hmem => absurd hmem List.not_mem_nil
  | vacant _ _ ih => exact ih
  | record hspelled _ ih =>
    rw [List.forall_mem_cons]
    exact ⟨hspelled.1, ih⟩

/-- Every listed record is spelled by its line. -/
theorem Listing.exists_line {n : Nat} {ls : List (List Char)} {records : List LineRecord}
    (h : Listing n ls records) : ∀ entry ∈ records, ∃ k raw, ls[k]? = some raw ∧
      entry.line = n + k ∧ entry.record.SpelledBy (trim raw) := by
  induction h with
  | nil => exact fun _ hmem => absurd hmem List.not_mem_nil
  | vacant _ _ ih =>
    intro entry hmem
    obtain ⟨k, raw, hraw, hline, hspelled⟩ := ih entry hmem
    exact ⟨k + 1, raw, hraw, by omega, hspelled⟩
  | record hspelled _ ih =>
    rw [List.forall_mem_cons]
    refine ⟨⟨0, _, rfl, rfl, hspelled⟩, fun entry hmem => ?_⟩
    obtain ⟨k, raw, hraw, hline, hspelled⟩ := ih entry hmem
    exact ⟨k + 1, raw, hraw, by omega, hspelled⟩

/-- Records are listed in the order of their lines. -/
theorem Listing.ascending {n : Nat} {ls : List (List Char)} {records : List LineRecord}
    (h : Listing n ls records) : records.Pairwise fun x y => x.line < y.line := by
  induction h with
  | nil => exact .nil
  | vacant _ _ ih => exact ih
  | @record n _ _ _ _ _ hrest ih =>
    refine List.pairwise_cons.2 ⟨fun entry hmem => ?_, ih⟩
    obtain ⟨k, -, -, hline, -⟩ := hrest.exists_line entry hmem
    show n < entry.line
    omega

/-- The lines of a text, counted from one, hold just these records. -/
def Describes (text : String) (records : List LineRecord) : Prop :=
  Listing 1 (lines text.toList) records

/-- What records with lines of their own declare is listed in the order of the lines. -/
theorem Describes.ascending_filterMap {text : String} {records : List LineRecord}
    (h : Describes text records) {β : Type} {f : LineRecord → Option β} {line : β → Nat}
    (hf : ∀ entry b, f entry = some b → line b = entry.line) :
    (records.filterMap f).Pairwise fun x y => line x < line y := by
  rw [List.pairwise_filterMap]
  refine h.ascending.imp fun {x y} hxy a ha b hb => ?_
  rw [hf x a ha, hf y b hb]
  exact hxy

/-! ## Taking pieces as long as possible -/

namespace Piece

variable {p : Piece} {ps qs : List Piece} {cs rest : List Char} {c : Char}

/-- Whether a run of the piece goes on with the character. -/
def continues : Piece → Char → Bool
  | word _, c => isWordChar c
  | number _, c => c.isDigit
  | lit _, _ => false
  | blanks, c | gap, c => isBlank c

/-- The piece stands in front of the rest, and goes no further. -/
def Takes (p : Piece) (cs rest : List Char) : Prop :=
  ∃ front, cs = front ++ rest ∧ p.Spelled front ∧ ∀ c ∈ rest.head?, p.continues c = false

/-- The pieces stand in front of the rest, each as long as it goes. -/
def Follow : List Piece → List Char → List Char → Prop
  | [], cs, rest => cs = rest
  | p :: ps, cs, rest => ∃ mid, p.Takes cs mid ∧ Follow ps mid rest

theorem follow_append :
    Follow (ps ++ qs) cs rest ↔ ∃ mid, Follow ps cs mid ∧ Follow qs mid rest := by
  induction ps generalizing cs with
  | nil => simp [Follow]
  | cons p ps ih =>
    simp only [List.cons_append, Follow, ih]
    constructor
    · intro h
      obtain ⟨m, hm, m', hm', hrest⟩ := h
      exact ⟨m', ⟨m, hm, hm'⟩, hrest⟩
    · intro h
      obtain ⟨m', ⟨m, hm, hm'⟩, hrest⟩ := h
      exact ⟨m, hm, m', hm', hrest⟩

/-- Blanks behind blanks take nothing. -/
theorem follow_blanks_blanks :
    Follow (blanks :: blanks :: ps) cs rest ↔ Follow (blanks :: ps) cs rest := by
  constructor
  · intro hs
    obtain ⟨mid, ⟨front, hcs, hf, hmid⟩, mid', ⟨front', rfl, hf', -⟩, hrest⟩ := hs
    cases front' with
    | nil => exact ⟨mid', ⟨front, hcs, hf, hmid⟩, hrest⟩
    | cons c front' =>
      have hc : isBlank c = false := hmid c (by simp)
      rw [hf' c (by simp)] at hc
      cases hc
  · intro hs
    obtain ⟨mid, hmid, hrest⟩ := hs
    obtain ⟨front, -, -, hstop⟩ := id hmid
    exact ⟨mid, hmid, mid, ⟨[], rfl, fun _ h => absurd h List.not_mem_nil, hstop⟩, hrest⟩

theorem follow_singleton : Follow [p] cs rest ↔ p.Takes cs rest := by
  simp [Follow]

theorem spells_append :
    Spells (ps ++ qs) cs ↔ ∃ a b, cs = a ++ b ∧ Spells ps a ∧ Spells qs b := by
  induction ps generalizing cs with
  | nil =>
    refine ⟨fun h => ⟨[], cs, rfl, rfl, h⟩, ?_⟩
    rintro ⟨a, b, rfl, rfl, h⟩
    exact h
  | cons p ps ih =>
    simp only [List.cons_append, Spells, ih]
    constructor
    · intro hs
      obtain ⟨front, _, rfl, hp, a, b, rfl, ha, hb⟩ := hs
      exact ⟨front ++ a, b, by rw [List.append_assoc], ⟨front, a, rfl, hp, ha⟩, hb⟩
    · intro hs
      obtain ⟨_, b, rfl, ⟨front, a, rfl, hp, ha⟩, hb⟩ := hs
      exact ⟨front, a ++ b, by rw [List.append_assoc], hp, a, b, rfl, ha, hb⟩

theorem follow_keyword_iff {w : String} : Follow (keyword w) cs rest ↔
    ∃ g, cs = w.toList ++ (g ++ rest) ∧ gap.Spelled g ∧ ∀ c ∈ rest.head?, isBlank c = false := by
  simp only [keyword, Follow]
  constructor
  · intro h
    obtain ⟨_, ⟨_, rfl, rfl, -⟩, _, ⟨g, rfl, hg, hstop⟩, rfl⟩ := h
    exact ⟨g, rfl, hg, hstop⟩
  · intro h
    obtain ⟨g, rfl, hg, hstop⟩ := h
    exact ⟨_, ⟨_, rfl, rfl, fun _ _ => rfl⟩, rest, ⟨g, rfl, hg, hstop⟩, rfl⟩

/-- The blanks between two marks are taken at once. -/
theorem follow_marks_pair {m m' : String} : Follow (marks [m, m']) cs rest ↔
    ∃ mid, Follow (mark m) cs mid ∧ Follow (mark m') mid rest := by
  rw [← follow_append]
  show Follow ([blanks, lit m] ++ (blanks :: [lit m', blanks])) cs rest ↔
    Follow ([blanks, lit m] ++ (blanks :: blanks :: [lit m', blanks])) cs rest
  rw [follow_append, follow_append]
  simp only [follow_blanks_blanks]

/-- Whether pieces can begin with the character. -/
def starts : List Piece → Char → Bool
  | [], _ => false
  | word _ :: _, c => isWordChar c
  | number _ :: _, c => c.isDigit
  | lit s :: ps, c =>
    match s.toList with
    | [] => starts ps c
    | a :: _ => a == c
  | blanks :: ps, c => isBlank c || starts ps c
  | gap :: _, c => isBlank c

theorem starts_of_spells (h : Spells ps (c :: cs)) : starts ps c = true := by
  induction ps with
  | nil => cases h
  | cons p ps ih =>
    obtain ⟨front, back, heq, hp, hback⟩ := h
    cases front with
    | nil =>
      rw [List.nil_append] at heq
      subst heq
      -- a piece without characters is blanks or an empty fixed text
      cases p with
      | word s => exact absurd rfl hp.2.1
      | number n => exact absurd rfl hp.2.1
      | lit s =>
        unfold starts
        rw [← show [] = s.toList from hp]
        exact ih hback
      | blanks => simp [starts, ih hback]
      | gap => exact absurd rfl hp.1
    | cons a front =>
      rw [List.cons_append, List.cons.injEq] at heq
      obtain ⟨rfl, rfl⟩ := heq
      cases p with
      | word s => exact hp.2.2 c (by simp)
      | number n => exact hp.2.2 c (by simp)
      | lit s =>
        unfold starts
        rw [← show c :: front = s.toList from hp]
        simp
      | blanks => simp [starts, hp c (by simp)]
      | gap => exact hp.2 c (by simp)

/-- No piece goes on with a character that the pieces behind it begin with. -/
def Separated : List Piece → Prop
  | [] => True
  | p :: ps => (∀ c, starts ps c = true → p.continues c = false) ∧ Separated ps

/-- Separated pieces are taken as long as possible whenever they are spelled. -/
theorem spells_iff_follow (h : Separated ps) : Spells ps cs ↔ Follow ps cs [] := by
  induction ps generalizing cs with
  | nil => rfl
  | cons p ps ih =>
    obtain ⟨hp, hps⟩ := h
    constructor
    · intro hs
      obtain ⟨front, back, rfl, hf, hb⟩ := hs
      refine ⟨back, ⟨front, rfl, hf, fun c hc => hp c ?_⟩, (ih hps).1 hb⟩
      obtain ⟨cs, rfl⟩ := List.head?_eq_some_iff.1 hc
      exact starts_of_spells hb
    · intro hs
      obtain ⟨mid, ⟨front, rfl, hf, -⟩, hmid⟩ := hs
      exact ⟨front, mid, rfl, hf, (ih hps).2 hmid⟩

end Piece

/-! ## The pieces of records are separated -/

namespace Piece

theorem starts_pairs (e : String × String) (rest : List (String × String)) (c : Char) :
    starts (pairs (e :: rest)) c = isWordChar c := by
  cases rest <;> rfl

theorem separated_pairs (edges : List (String × String)) : Separated (pairs edges) := by
  have hcolon : isWordChar ':' = false := by decide
  have hblank : isBlank ':' = false := by decide
  induction edges with
  | nil => trivial
  | cons e rest ih =>
    cases rest with
    | nil =>
      simp +contextual [pairs, pair, Separated, starts, continues, isBlank_eq_false_of_isWordChar,
        isWordChar_eq_false_of_isBlank]
    | cons e' rest =>
      simp +contextual [pairs, pair, mark, marks, Separated, starts, continues, or_imp,
        starts_pairs, isBlank_eq_false_of_isWordChar, isWordChar_eq_false_of_isBlank, hcolon,
        hblank, ih]

end Piece

/-- The pieces of a record are separated. -/
theorem Record.separated_pieces (record : Record) : Separated record.pieces := by
  -- no mark goes on with a word, blanks or a number
  have hword : [':', '@', '-', '/', '(', ')'].any isWordChar = false := by decide
  have hblank : [':', '@', '-', '/', '(', ')', 'm'].any isBlank = false := by decide
  have hdigit : [':', '@', '-', '/', '(', ')', 'm'].any Char.isDigit = false := by decide
  simp only [List.any_cons, List.any_nil, Bool.or_false, Bool.or_eq_false_iff]
    at hword hblank hdigit
  cases record with
  | mutex edges =>
    refine ⟨fun _ _ => rfl, fun c hc => ?_, separated_pairs edges⟩
    cases edges with
    | nil => cases hc
    | cons e rest =>
      have hc : starts (pairs (e :: rest)) c = true := hc
      rw [starts_pairs] at hc
      exact isBlank_eq_false_of_isWordChar hc
  | _ =>
    simp +contextual [Record.pieces, numbered, following, pair, keyword, mark, marks, Separated,
      starts, continues, or_imp, isBlank_eq_false_of_isWordChar, isWordChar_eq_false_of_isBlank,
      isBlank_eq_false_of_isDigit, isDigit_eq_false_of_isBlank, hword, hblank, hdigit]

end TrackPlan
