/-!
# Splitting a text

A text with marks in it falls into the parts between them; there is one part more than there are
marks.
-/

namespace TrackPlan.Text

/-- The parts between marks. -/
def splitAt (mark : Char) : List Char → List (List Char)
  | [] => [[]]
  | c :: cs =>
    if c = mark then [] :: splitAt mark cs
    else
      match splitAt mark cs with
      | [] => [[c]]
      | part :: parts => (c :: part) :: parts

theorem splitAt_ne_nil (mark : Char) (cs : List Char) : splitAt mark cs ≠ [] := by
  cases cs with
  | nil => simp [splitAt]
  | cons c cs =>
    rw [splitAt]
    split
    · simp
    · split <;> simp

/-- There is one part more than there are marks. -/
theorem length_splitAt (mark : Char) (cs : List Char) :
    (splitAt mark cs).length = cs.count mark + 1 := by
  induction cs with
  | nil => rfl
  | cons c cs ih =>
    rw [splitAt]
    split
    next h => simp [h, ih]
    next h =>
      have hne := splitAt_ne_nil mark cs
      split
      next hnil => exact absurd hnil hne
      next part parts hparts =>
        rw [hparts] at ih
        simpa [h] using ih

end TrackPlan.Text
