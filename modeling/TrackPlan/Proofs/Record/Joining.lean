import TrackPlan.Proofs.Formatting

/-!
# Texts joined by a line feed

Two texts with a line feed between them read as the records of the first and then those of the
second, on lines that the first has pushed down (`readRecords_join`).

A text may end in a line feed or in a carriage return that the joint makes part of a line end, so
its lines are not always those it has in a longer text. `occupied_eq_splitAt` says that this makes
no difference to the lines which hold something: they are the parts between line feeds, and those
of a joined text are the parts of the one and then the parts of the other.
-/

namespace TrackPlan

open Text Relabeling

/-- The same record, so many lines down. -/
def LineRecord.push (k : Nat) (x : LineRecord) : LineRecord := { x with line := x.line + k }

/-- How far a text pushes down what is joined to it: by a line for every line feed in it, and by one
for the line feed at the joint. -/
def lineSpan (text : String) : Nat := 1 + text.toList.count '\n'

/-! ## Lines that hold something -/

/-- Whether a line holds something does not depend on its outer blanks. -/
theorem occupiedFrom_map_trim (n : Nat) (ls : List (List Char)) :
    occupiedFrom n (ls.map trim) = occupiedFrom n ls := by
  induction ls generalizing n with
  | nil => rfl
  | cons raw rest ih =>
    rw [List.map_cons, occupiedFrom, occupiedFrom, (bare_trim raw).trim_eq, ih]

theorem occupiedFrom_append (n : Nat) (ls ms : List (List Char)) :
    occupiedFrom n (ls ++ ms) = occupiedFrom n ls ++ occupiedFrom (n + ls.length) ms := by
  induction ls generalizing n with
  | nil => rfl
  | cons raw rest ih =>
    have hlength : n + (raw :: rest).length = n + 1 + rest.length := by
      rw [List.length_cons]
      omega
    rw [List.cons_append, occupiedFrom, occupiedFrom, ih, hlength]
    split <;> rfl

theorem occupiedFrom_add (n k : Nat) (ls : List (List Char)) :
    occupiedFrom (n + k) ls = (occupiedFrom n ls).map fun entry => (entry.1 + k, entry.2) := by
  induction ls generalizing n with
  | nil => rfl
  | cons raw rest ih =>
    rw [occupiedFrom, occupiedFrom, Nat.add_right_comm, ih]
    split <;> rfl

/-- An empty part at the end of a text holds nothing, and a carriage return is a blank. -/
theorem occupied_eq_splitAt (text : String) :
    occupied text = occupiedFrom 1 (splitAt '\n' text.toList) := by
  obtain ⟨tail, htail, htrim⟩ := exists_map_trim_splitAt text.toList
  have hnothing : ∀ n, occupiedFrom n tail = [] := by
    intro n
    rcases htail with rfl | rfl <;> rfl
  unfold occupied
  rw [← occupiedFrom_map_trim 1 (splitAt _ _), ← htrim, occupiedFrom_map_trim,
    occupiedFrom_append, hnothing, List.append_nil]

theorem occupied_join (a b : String) : occupied (a ++ "\n" ++ b) =
    occupied a ++ (occupied b).map fun entry => (entry.1 + lineSpan a, entry.2) := by
  have htext : (a ++ "\n" ++ b).toList = a.toList ++ '\n' :: b.toList := by
    simp
  have hspan : (splitAt '\n' a.toList).length = lineSpan a := by
    rw [length_splitAt, lineSpan, Nat.add_comm]
  rw [occupied_eq_splitAt, occupied_eq_splitAt, occupied_eq_splitAt, htext, splitAt_append_mark,
    occupiedFrom_append, hspan, occupiedFrom_add]

/-! ## Reading -/

theorem readRecords_eq_mapM (text : String) :
    readRecords text = (occupied text).mapM readContent := readLines_eq_mapM 1 _

theorem relabel_ofLines_add (k : Nat) (x : LineRecord) : x.relabel (.ofLines (· + k)) = x.push k :=
  congrArg (LineRecord.mk (x.line + k)) x.record.relabel_ofLines

/-- What is read further down is the same, further down. -/
theorem mapM_readContent_push (k : Nat) (entries : List (Nat × List Char)) :
    (entries.map fun entry => (entry.1 + k, entry.2)).mapM readContent =
      (ofLines (· + k)).result (List.map (LineRecord.push k)) (entries.mapM readContent) := by
  rw [result_mapM fun entry _ => readContent_renumber (σ := (· + k)) entry]
  congr 2
  exact funext (relabel_ofLines_add k)

/-- **Joining.** A joined text fails as the first text does, or else as the second does, so many
lines down. If neither fails, it has the records of the first and then those of the second, so many
lines down. -/
theorem readRecords_join (a b : String) : readRecords (a ++ "\n" ++ b) =
    match readRecords a, readRecords b with
    | .error e, _ => .error e
    | .ok _, .error e => .error (e.renumber (· + lineSpan a))
    | .ok records, .ok more => .ok (records ++ more.map (LineRecord.push (lineSpan a))) := by
  simp only [readRecords_eq_mapM]
  rw [occupied_join, List.mapM_append, mapM_readContent_push]
  cases (occupied a).mapM readContent with
  | error e => rfl
  | ok records => cases (occupied b).mapM readContent <;> rfl

/-- The joint completes a line end that the first part has begun. -/
example : readRecords ("# round\r" ++ "\n" ++ "\ncalib A") = .ok [⟨3, .calibration "A"⟩] := by
  decide +kernel

end TrackPlan
