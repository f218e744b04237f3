import Mathlib.Logic.Relation
import TrackPlan.Proofs.Record.Reading

/-!
# What formatting leaves alone

Texts that differ in blank lines, comments, outer blanks and carriage returns are `Reformatted`. All
such texts have the same `contents`: their lines without outer blanks, apart from blank lines and
comments (`contents_eq_of_edits`).

Lines are read one way and edited another: reading takes a carriage return along with its line feed,
and an edit may leave one there or not. `contents_eq_splitAt` says that contents do not depend on
this, so an edit can be followed by line feeds alone.
-/

namespace TrackPlan

open Text

/-! ## Edits -/

/-- A line starts behind the text. -/
def LineStart (front : List Char) : Prop := front = [] ∨ ∃ cs, front = cs ++ ['\n']

/-- A line ends in front of the text. -/
def LineEnd (back : List Char) : Prop :=
  back = [] ∨ (∃ cs, back = '\n' :: cs) ∨ ∃ cs, back = '\r' :: '\n' :: cs

/-- One edit of a text that adds nothing to it. -/
inductive Edit : List Char → List Char → Prop
  /-- A blank line or a comment, in front of a line. -/
  | insertLine {front line back : List Char} (hstart : LineStart front) (hvacant : Vacant line)
    (hline : '\n' ∉ line) : Edit (front ++ back) (front ++ (line ++ '\n' :: back))
  /-- A blank line or a comment, behind the last line. -/
  | appendLine {front line : List Char} (hvacant : Vacant line) (hline : '\n' ∉ line) :
    Edit front (front ++ '\n' :: line)
  /-- Blanks, in front of what a line holds. -/
  | indent {front blanks back : List Char} (hstart : LineStart front) (hblank : AllBlank blanks)
    (hline : '\n' ∉ blanks) : Edit (front ++ back) (front ++ (blanks ++ back))
  /-- Blanks, behind what a line holds. -/
  | pad {front blanks back : List Char} (hend : LineEnd back) (hblank : AllBlank blanks)
    (hline : '\n' ∉ blanks) : Edit (front ++ back) (front ++ (blanks ++ back))
  /-- A carriage return, in front of a line feed. -/
  | carriageReturn {front back : List Char} :
    Edit (front ++ '\n' :: back) (front ++ '\r' :: '\n' :: back)

/-- Edits, made or taken back, lead from one text to the other. -/
def Reformatted (text text' : String) : Prop := Relation.EqvGen Edit text.toList text'.toList

/-- The lines of a text without outer blanks, apart from blank lines and comments. -/
def contents (cs : List Char) : List (List Char) :=
  ((lines cs).map trim).filter fun text => !isVacant text

variable {cs a b blanks : List Char}

/-! ## Blanks -/

theorem trim_append_of_allBlank (h : AllBlank blanks) : trim (blanks ++ cs) = trim cs := by
  obtain ⟨hbare, a, b, hcs, ha, hb⟩ := trim_eq_iff.1 (rfl : trim cs = trim cs)
  refine trim_eq_iff.2 ⟨hbare, blanks ++ a, b, ?_, fun c hc => ?_, hb⟩
  · rw [List.append_assoc, ← hcs]
  · exact (List.mem_append.1 hc).elim (h c) (ha c)

theorem trim_append_allBlank (h : AllBlank blanks) : trim (cs ++ blanks) = trim cs := by
  obtain ⟨hbare, a, b, hcs, ha, hb⟩ := trim_eq_iff.1 (rfl : trim cs = trim cs)
  refine trim_eq_iff.2 ⟨hbare, a, b ++ blanks, ?_, ha, fun c hc => ?_⟩
  · rw [← List.append_assoc, ← List.append_assoc, List.append_assoc a, ← hcs]
  · exact (List.mem_append.1 hc).elim (hb c) (h c)

theorem allBlank_carriageReturn : AllBlank ['\r'] := by
  intro c hc
  rw [List.mem_singleton.1 hc]
  decide

/-! ## Lines and line feeds -/

/-- The parts between line feeds are the lines, but for a carriage return at the end of a line and
for an empty part at the end of the text. -/
theorem exists_forall₂_splitAt (cs : List Char) : ∃ tail, (tail = [] ∨ tail = [[]]) ∧
    List.Forall₂ (fun l part => part = l ∨ part = l ++ ['\r']) (lines cs ++ tail)
      (splitAt '\n' cs) := by
  induction cs with
  | nil => exact ⟨[[]], Or.inr rfl, .cons (Or.inl rfl) .nil⟩
  | cons c cs ih =>
    obtain ⟨tail, htail, h⟩ := ih
    by_cases hc : c = '\n'
    · subst hc
      rw [lines_newline, splitAt, if_pos rfl]
      exact ⟨tail, htail, .cons (Or.inl rfl) h⟩
    · rw [lines, if_neg hc, splitAt, if_neg hc]
      by_cases hr : c = '\r' ∧ cs.head? = some '\n'
      · rw [if_pos hr]
        obtain ⟨rfl, hhead⟩ := hr
        obtain ⟨rest, rfl⟩ := List.head?_eq_some_iff.1 hhead
        rw [lines_newline, splitAt, if_pos rfl] at h ⊢
        refine ⟨tail, htail, ?_⟩
        cases h with
        | cons _ hrest => exact .cons (Or.inr rfl) hrest
      · rw [if_neg hr]
        have hcons : ∀ l part : List Char, part = l ∨ part = l ++ ['\r'] →
            c :: part = c :: l ∨ c :: part = c :: l ++ ['\r'] := by
          rintro l part (rfl | rfl)
          · exact Or.inl rfl
          · exact Or.inr rfl
        cases hlines : lines cs with
        | nil =>
          rw [hlines, List.nil_append] at h
          rcases htail with rfl | rfl
          · exact absurd (List.forall₂_nil_left_iff.1 h) (splitAt_ne_nil '\n' cs)
          · -- the character makes a line of the empty part
            obtain ⟨part, parts, hpart, hparts, hsplit⟩ := List.forall₂_cons_left_iff.1 h
            rw [hsplit, List.forall₂_nil_left_iff.1 hparts]
            exact ⟨[], Or.inl rfl, .cons (hcons [] part hpart) .nil⟩
        | cons l ls =>
          rw [hlines, List.cons_append] at h
          obtain ⟨part, parts, hpart, hparts, hsplit⟩ := List.forall₂_cons_left_iff.1 h
          rw [hsplit]
          exact ⟨tail, htail, .cons (hcons l part hpart) hparts⟩

/-- Without outer blanks the lines are the parts between line feeds, but for an empty part at the
end of the text. -/
theorem exists_map_trim_splitAt (cs : List Char) : ∃ tail, (tail = [] ∨ tail = [[]]) ∧
    (lines cs ++ tail).map trim = (splitAt '\n' cs).map trim := by
  obtain ⟨tail, htail, h⟩ := exists_forall₂_splitAt cs
  refine ⟨tail, htail, ?_⟩
  rw [← List.forall₂_eq_eq_eq, List.forall₂_map_left_iff, List.forall₂_map_right_iff]
  refine h.imp fun l part hpart => ?_
  rcases hpart with rfl | rfl
  · rfl
  · exact (trim_append_allBlank allBlank_carriageReturn).symm

/-- Contents are what stands between line feeds. -/
theorem contents_eq_splitAt (cs : List Char) :
    contents cs = ((splitAt '\n' cs).map trim).filter fun text => !isVacant text := by
  obtain ⟨tail, htail, htrim⟩ := exists_map_trim_splitAt cs
  rw [← htrim, List.map_append, List.filter_append]
  unfold contents
  rcases htail with rfl | rfl
  · rw [List.map_nil, List.filter_nil, List.append_nil]
  · exact (List.append_nil _).symm

theorem splitAt_append_mark (m : Char) (a b : List Char) :
    splitAt m (a ++ m :: b) = splitAt m a ++ splitAt m b := by
  induction a with
  | nil => simp [splitAt]
  | cons c a ih =>
    rw [List.cons_append, splitAt, splitAt, ih]
    split
    · rfl
    · cases hsplit : splitAt m a with
      | nil => exact absurd hsplit (splitAt_ne_nil m a)
      | cons part parts => rfl

/-! ## Contents, part by part -/

@[simp] theorem contents_nil : contents [] = [] := rfl

theorem contents_append_newline (a b : List Char) :
    contents (a ++ '\n' :: b) = contents a ++ contents b := by
  simp only [contents_eq_splitAt, splitAt_append_mark, List.map_append, List.filter_append]

theorem contents_newline (b : List Char) : contents ('\n' :: b) = contents b :=
  contents_append_newline [] b

theorem contents_of_notMem (h : '\n' ∉ cs) :
    contents cs = [trim cs].filter fun text => !isVacant text := by
  rw [contents_eq_splitAt, splitAt_of_notMem h]
  rfl

theorem contents_of_vacant (hvacant : Vacant cs) (h : '\n' ∉ cs) : contents cs = [] := by
  rw [contents_of_notMem h, List.filter_cons_of_neg (by simp [isVacant_iff.2 hvacant]),
    List.filter_nil]

theorem LineStart.contents_append (h : LineStart a) (b : List Char) :
    contents (a ++ b) = contents a ++ contents b := by
  rcases h with rfl | ⟨cs, rfl⟩
  · rfl
  · rw [List.append_assoc]
    show contents (cs ++ '\n' :: b) = contents (cs ++ '\n' :: []) ++ contents b
    rw [contents_append_newline, contents_append_newline, contents_nil, List.append_nil]

/-- Blanks in front of a text. -/
theorem contents_indent (hblank : AllBlank blanks) (h : '\n' ∉ blanks) (cs : List Char) :
    contents (blanks ++ cs) = contents cs := by
  rcases splitAt_cases '\n' cs with hcs | ⟨front, back, rfl, hfront⟩
  · rw [contents_of_notMem (by simp [h, hcs]), contents_of_notMem hcs,
      trim_append_of_allBlank hblank]
  · have hline : '\n' ∉ blanks ++ front := by simp [h, hfront]
    rw [← List.append_assoc, contents_append_newline, contents_append_newline,
      contents_of_notMem hline, contents_of_notMem hfront, trim_append_of_allBlank hblank]

/-- A text has no mark, or a last one. -/
theorem splitAt_cases_last (m : Char) (cs : List Char) : m ∉ cs ∨
    ∃ front back, cs = front ++ m :: back ∧ m ∉ back := by
  rcases splitAt_cases m cs.reverse with h | ⟨front, back, hcs, hfront⟩
  · exact Or.inl (by simpa using h)
  · refine Or.inr ⟨back.reverse, front.reverse, ?_, by simpa using hfront⟩
    rw [List.reverse_eq_iff] at hcs
    rw [hcs, List.reverse_append, List.reverse_cons, List.append_assoc, List.singleton_append]

/-- Blanks behind a text. -/
theorem contents_pad (hblank : AllBlank blanks) (h : '\n' ∉ blanks) (cs : List Char) :
    contents (cs ++ blanks) = contents cs := by
  rcases splitAt_cases_last '\n' cs with hcs | ⟨front, back, rfl, hback⟩
  · rw [contents_of_notMem (by simp [h, hcs]), contents_of_notMem hcs,
      trim_append_allBlank hblank]
  · have hline : '\n' ∉ back ++ blanks := by simp [h, hback]
    rw [List.append_assoc, List.cons_append, contents_append_newline, contents_append_newline,
      contents_of_notMem hline, contents_of_notMem hback, trim_append_allBlank hblank]

theorem LineEnd.contents_append (h : LineEnd b) (a : List Char) :
    contents (a ++ b) = contents a ++ contents b := by
  rcases h with rfl | ⟨cs, rfl⟩ | ⟨cs, rfl⟩
  · rw [List.append_nil, contents_nil, List.append_nil]
  · rw [contents_append_newline, contents_newline]
  · have hfront : a ++ '\r' :: '\n' :: cs = (a ++ ['\r']) ++ '\n' :: cs := by simp
    have hback : '\r' :: '\n' :: cs = ['\r'] ++ '\n' :: cs := rfl
    rw [hfront, hback, contents_append_newline, contents_append_newline,
      contents_pad allBlank_carriageReturn (by decide)]
    rfl

/-- The step: one edit leaves the contents alone. -/
theorem Edit.contents_eq (h : Edit a b) : contents a = contents b := by
  cases h with
  | insertLine hstart hvacant hline =>
    rw [hstart.contents_append, hstart.contents_append, contents_append_newline,
      contents_of_vacant hvacant hline, List.nil_append]
  | appendLine hvacant hline =>
    rw [contents_append_newline, contents_of_vacant hvacant hline, List.append_nil]
  | indent hstart hblank hline =>
    rw [hstart.contents_append, hstart.contents_append, contents_indent hblank hline]
  | @pad front blanks back hend hblank hline =>
    rw [hend.contents_append, ← List.append_assoc, hend.contents_append,
      contents_pad hblank hline]
  | @carriageReturn front back =>
    have hsplit : front ++ '\r' :: '\n' :: back = (front ++ ['\r']) ++ '\n' :: back := by simp
    rw [hsplit, contents_append_newline, contents_append_newline,
      contents_pad allBlank_carriageReturn (by decide)]

/-- The run: edits leave the contents alone. -/
theorem contents_eq_of_edits (h : Relation.EqvGen Edit a b) : contents a = contents b := by
  induction h with
  | rel _ _ hedit => exact hedit.contents_eq
  | refl _ => rfl
  | symm _ _ _ ih => exact ih.symm
  | trans _ _ _ _ _ ih ih' => exact ih.trans ih'

end TrackPlan
