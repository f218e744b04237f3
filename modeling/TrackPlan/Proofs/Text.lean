import TrackPlan.Proofs.Lists
import TrackPlan.Text.Blank
import TrackPlan.Text.Split
import TrackPlan.Text.Word

/-!
# Characters, blanks and parts

Words, numerals and blanks share no characters. A trimmed text is what is left between the blanks at
either end (`trim_eq_iff`), the lines of a text hold no line feed (`newline_notMem_lines`), and a
text falls into parts at its first mark (`splitAt_append`).
-/

namespace TrackPlan.Text

variable {cs t : List Char} {c m : Char}

/-! ## Characters -/

/-- The code points of word characters. -/
theorem toNat_of_isWordChar {c : Char} (h : isWordChar c = true) :
    (48 ≤ c.toNat ∧ c.toNat ≤ 57) ∨ (65 ≤ c.toNat ∧ c.toNat ≤ 90) ∨ c.toNat = 95 ∨
      (97 ≤ c.toNat ∧ c.toNat ≤ 122) := by
  unfold isWordChar Char.isAlphanum at h
  delta Char.isAlpha Char.isUpper Char.isLower Char.isDigit at h
  simp only [Bool.or_eq_true, Bool.and_eq_true, decide_eq_true_eq, beq_iff_eq,
    UInt32.le_iff_toNat_le, ge_iff_le] at h
  rcases h with ((h | h) | h) | rfl
  · exact Or.inr (Or.inl h)
  · exact Or.inr (Or.inr (Or.inr h))
  · exact Or.inl h
  · decide

/-- No blank is a word character. -/
theorem isWordChar_eq_false_of_isBlank {c : Char} (h : isBlank c = true) :
    isWordChar c = false := by
  rw [Bool.eq_false_iff]
  intro hw
  have := toNat_of_isWordChar hw
  simp only [isBlank, Bool.or_eq_true, Bool.and_eq_true, decide_eq_true_eq, beq_iff_eq] at h
  omega

theorem isBlank_eq_false_of_isWordChar {c : Char} (h : isWordChar c = true) :
    isBlank c = false := by
  rw [Bool.eq_false_iff]
  intro hb
  rw [isWordChar_eq_false_of_isBlank hb] at h
  cases h

/-- Every digit is a word character. -/
theorem isWordChar_of_isDigit {c : Char} (h : c.isDigit = true) : isWordChar c = true := by
  simp [isWordChar, Char.isAlphanum, h]

theorem isBlank_eq_false_of_isDigit {c : Char} (h : c.isDigit = true) : isBlank c = false :=
  isBlank_eq_false_of_isWordChar (isWordChar_of_isDigit h)

theorem isDigit_eq_false_of_isBlank {c : Char} (h : isBlank c = true) : c.isDigit = false := by
  rw [Bool.eq_false_iff]
  intro hd
  rw [isBlank_eq_false_of_isDigit hd] at h
  cases h

/-! ## Blanks at either end -/

/-- Neither end of the text is a blank. -/
def Bare (t : List Char) : Prop :=
  (∀ c ∈ t.head?, isBlank c = false) ∧ ∀ c ∈ t.getLast?, isBlank c = false

/-- Blanks only. -/
def AllBlank (t : List Char) : Prop := ∀ c ∈ t, isBlank c = true

theorem trimRight_eq_iff : trimRight cs = t ↔
    (∀ c ∈ t.getLast?, isBlank c = false) ∧ ∃ b, cs = t ++ b ∧ AllBlank b := by
  unfold trimRight
  rw [List.reverse_eq_iff, dropWhile_eq_iff, List.head?_reverse]
  constructor
  · intro h
    obtain ⟨b, hb, hblank, hlast⟩ := h
    rw [List.reverse_eq_iff, List.reverse_append, List.reverse_reverse] at hb
    exact ⟨hlast, b.reverse, hb, fun c hc => hblank c (List.mem_reverse.1 hc)⟩
  · intro h
    obtain ⟨hlast, b, rfl, hblank⟩ := h
    exact ⟨b.reverse, by rw [List.reverse_append], fun c hc => hblank c (List.mem_reverse.1 hc),
      hlast⟩

/-- Trimming leaves what is between the blanks at either end. -/
theorem trim_eq_iff : trim cs = t ↔
    Bare t ∧ ∃ a b, cs = a ++ (t ++ b) ∧ AllBlank a ∧ AllBlank b := by
  unfold trim trimLeft
  rw [trimRight_eq_iff]
  constructor
  · intro h
    obtain ⟨hlast, b, hdrop, hb⟩ := h
    obtain ⟨a, rfl, ha, hhead⟩ := dropWhile_eq_iff.1 hdrop
    refine ⟨⟨fun c hc => hhead c ?_, hlast⟩, a, b, rfl, ha, hb⟩
    rw [Option.mem_def] at hc ⊢
    rw [List.head?_append, hc, Option.some_or]
  · intro h
    obtain ⟨⟨hhead, hlast⟩, a, b, rfl, ha, hb⟩ := h
    cases t with
    | nil =>
      refine ⟨hlast, [], dropWhile_eq_iff.2 ⟨a ++ b, by simp, ?_, by simp⟩, by simp [AllBlank]⟩
      exact fun c hc => (List.mem_append.1 hc).elim (ha c) (hb c)
    | cons c t => exact ⟨hlast, b, dropWhile_eq_iff.2 ⟨a, rfl, ha, by simpa using hhead⟩, hb⟩

theorem Bare.trim_eq (h : Bare t) : trim t = t :=
  trim_eq_iff.2 ⟨h, [], [], by simp, by simp [AllBlank], by simp [AllBlank]⟩

theorem bare_trim (cs : List Char) : Bare (trim cs) := (trim_eq_iff.1 rfl).1

theorem mem_of_mem_trim (h : c ∈ trim cs) : c ∈ cs := by
  obtain ⟨-, a, b, hcs, -, -⟩ := trim_eq_iff.1 (rfl : trim cs = trim cs)
  rw [hcs]
  simp [h]

/-! ## Lines and parts -/

/-- A line holds no line feed. -/
theorem newline_notMem_lines : ∀ l ∈ lines cs, '\n' ∉ l := by
  induction cs with
  | nil => simp
  | cons c cs ih =>
    unfold lines
    split
    · simpa using ih
    · next hc =>
      split
      · exact ih
      · split
        · simpa using Ne.symm hc
        · next l ls hls =>
          rw [hls, List.forall_mem_cons] at ih
          rw [List.forall_mem_cons]
          exact ⟨by simp [Ne.symm hc, ih.1], ih.2⟩

theorem splitAt_of_notMem (h : m ∉ cs) : splitAt m cs = [cs] := by
  induction cs with
  | nil => rfl
  | cons c cs ih =>
    rw [List.mem_cons, not_or] at h
    rw [splitAt, if_neg (Ne.symm h.1), ih h.2]

/-- A text falls into parts at its first mark. -/
theorem splitAt_append {front back : List Char} (h : m ∉ front) :
    splitAt m (front ++ m :: back) = front :: splitAt m back := by
  induction front with
  | nil => simp [splitAt]
  | cons c front ih =>
    rw [List.mem_cons, not_or] at h
    rw [List.cons_append, splitAt, if_neg (Ne.symm h.1), ih h.2]

/-- A text has no mark, or a first one. -/
theorem splitAt_cases (m : Char) (cs : List Char) : m ∉ cs ∨
    ∃ front back, cs = front ++ m :: back ∧ m ∉ front := by
  by_cases h : m ∈ cs
  · obtain ⟨front, back, rfl, hfront⟩ := List.eq_append_cons_of_mem h
    exact Or.inr ⟨front, back, rfl, hfront⟩
  · exact Or.inl h

end TrackPlan.Text
