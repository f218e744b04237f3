import TrackPlan.Text.Blank
import TrackPlan.Text.Word

/-!
# Scanning one line

A scanner reads a part of a line and keeps the rest, or fails. Names, blanks and punctuation share
no characters, so a scanner never has to give back what it took.
-/

namespace TrackPlan

open Text

/-- Reads a part of a line and keeps the rest. -/
abbrev Scanner := StateT (List Char) Option

namespace Scanner

/-- Skips blanks, none or more. -/
def blanks : Scanner Unit := fun cs => some ((), cs.dropWhile isBlank)

/-- Skips blanks, at least one. -/
def gap : Scanner Unit
  | [] => none
  | c :: cs => if isBlank c then some ((), cs.dropWhile isBlank) else none

/-- Takes the longest run of characters that satisfy `p`, at least one. -/
def stretch (p : Char → Bool) : Scanner (List Char) := fun cs =>
  match cs.takeWhile p with
  | [] => none
  | c :: taken => some (c :: taken, cs.dropWhile p)

/-- Takes a name. -/
def name : Scanner String := String.ofList <$> stretch isWordChar

/-- Takes a numeral and gives the number it denotes. -/
def numeral : Scanner Nat := decimal <$> stretch Char.isDigit

/-- Takes the given characters. -/
def exactly : List Char → Scanner Unit
  | [], cs => some ((), cs)
  | _ :: _, [] => none
  | a :: expected, c :: cs => if a = c then exactly expected cs else none

/-- Takes the given characters with any blanks around them. -/
def mark (expected : String) : Scanner Unit := do
  blanks
  exactly expected.toList
  blanks

/-- Takes a keyword and the blanks that must follow it. -/
def keyword (word : String) : Scanner Unit := do
  exactly word.toList
  gap

/-- Succeeds at the end of the line only. -/
def finish : Scanner Unit
  | [] => some ((), [])
  | _ :: _ => none

/-- What a scanner reads when it is given a whole text. -/
def whole {α : Type} (s : Scanner α) (cs : List Char) : Option α :=
  (StateT.run s cs).map Prod.fst

end Scanner

end TrackPlan
