import Mathlib.Algebra.Order.BigOperators.Group.List
import Mathlib.Algebra.Order.Ring.Nat
import TrackPlan.Proofs.Formatting.Edits
import TrackPlan.Proofs.Relabeling

/-!
# Formatting does not matter

A reformatted text holds the same contents on other lines, and compiles to the same track, or fails
with the same error on the line that holds the same content (`compile_of_reformatted`).

1. `compile_eq_compileContents`: only lines that hold something count, with their numbers and
   without outer blanks.
2. `compileContents_renumber`: other numbers in the same order give the same track, and the same
   error and warnings with the other numbers.
3. The numbers of one text need not be an increasing function of those of the other, as lines may be
   deleted; so both are compared with the numbers from zero on, which a `numbering` extends
   (`exists_renumber`).
4. As a numbering may go on in more than one way behind the last line, no line is reported that
   holds nothing (`lines_compileContents_subset`).
-/

namespace TrackPlan

open Text Relabeling

/-! ## Lines that hold something -/

/-- The lines that are neither blank nor a comment, with their numbers and without outer blanks; the
lines are numbered from the given number on. -/
def occupiedFrom : Nat → List (List Char) → List (Nat × List Char)
  | _, [] => []
  | n, raw :: rest =>
    if isVacant (trim raw) then occupiedFrom (n + 1) rest
    else (n, trim raw) :: occupiedFrom (n + 1) rest

/-- The lines of a text that are neither blank nor a comment. -/
def occupied (text : String) : List (Nat × List Char) := occupiedFrom 1 (lines text.toList)

theorem map_snd_occupiedFrom (n : Nat) (ls : List (List Char)) :
    (occupiedFrom n ls).map Prod.snd = (ls.map trim).filter fun text => !isVacant text := by
  induction ls generalizing n with
  | nil => rfl
  | cons raw rest ih =>
    rw [occupiedFrom, List.map_cons, List.filter_cons]
    cases h : isVacant (trim raw) with
    | true => simpa [h] using ih (n + 1)
    | false => simpa [h] using ih (n + 1)

theorem map_snd_occupied (text : String) :
    (occupied text).map Prod.snd = contents text.toList :=
  map_snd_occupiedFrom 1 (lines text.toList)

theorem le_of_mem_occupiedFrom {n m : Nat} {ls : List (List Char)}
    (h : m ∈ (occupiedFrom n ls).map Prod.fst) : n ≤ m := by
  induction ls generalizing n with
  | nil => cases h
  | cons raw rest ih =>
    rw [occupiedFrom] at h
    split at h
    · exact Nat.le_of_succ_le (ih h)
    · rcases List.mem_cons.1 h with rfl | h
      · exact Nat.le_refl _
      · exact Nat.le_of_succ_le (ih h)

theorem ascending_occupiedFrom (n : Nat) (ls : List (List Char)) :
    ((occupiedFrom n ls).map Prod.fst).Pairwise (· < ·) := by
  induction ls generalizing n with
  | nil => exact .nil
  | cons raw rest ih =>
    rw [occupiedFrom]
    split
    · exact ih (n + 1)
    · exact List.pairwise_cons.2 ⟨fun m hm => le_of_mem_occupiedFrom hm, ih (n + 1)⟩

theorem ascending_occupied (text : String) :
    ((occupied text).map Prod.fst).Pairwise (· < ·) :=
  ascending_occupiedFrom 1 (lines text.toList)

/-- Reads what a line holds. -/
def readContent (entry : Nat × List Char) : Except CompileError LineRecord :=
  match Record.read entry.2 with
  | .ok record => .ok ⟨entry.1, record⟩
  | .error fault => .error (.malformed entry.1 (String.ofList entry.2) fault)

theorem readLines_eq_mapM (n : Nat) (ls : List (List Char)) :
    readLines n ls = (occupiedFrom n ls).mapM readContent := by
  induction ls generalizing n with
  | nil => rfl
  | cons raw rest ih =>
    rw [readLines, occupiedFrom, ih]
    unfold readLine
    dsimp only
    split
    · cases (occupiedFrom (n + 1) rest).mapM readContent <;> rfl
    · rw [List.mapM_cons, readContent]
      cases Record.read (trim raw) <;> rfl

/-- Compiles what the lines of a text hold. -/
def compileContents (entries : List (Nat × List Char)) (o : Options) : Report Track := do
  let records ← Report.ofExcept (entries.mapM readContent)
  compileRecords records o

theorem compile_eq_compileContents (text : String) (o : Options) :
    compile text o = compileContents (occupied text) o := by
  unfold compile compileContents readRecords
  rw [readLines_eq_mapM]
  rfl

/-! ## Other numbers -/

/-- New lines alone. -/
def Relabeling.ofLines (σ : Nat → Nat) : Relabeling := ⟨id, σ⟩

theorem Relabeling.faithful_ofLines {σ : Nat → Nat} (h : StrictMono σ) : (ofLines σ).Faithful :=
  ⟨Function.injective_id, rfl, h⟩

/-- The error with another line. -/
def CompileError.renumber (σ : Nat → Nat) (e : CompileError) : CompileError :=
  e.relabel (.ofLines σ)

/-- The warning with another line. -/
def Warning.renumber (σ : Nat → Nat) (w : Warning) : Warning := w.relabel (.ofLines σ)

/-- The line of the record that the warning is about. -/
def Warning.line : Warning → Option Nat
  | .distanceRedeclared _ _ _ line => some line
  | .mutexOverlap line _ => some line
  | .noDistance .. => none

/-- The same result, or the error and the warnings with other lines. -/
def Report.renumber {α : Type} (σ : Nat → Nat) (x : Report α) : Report α :=
  ⟨x.warnings.map (Warning.renumber σ), x.result.mapError (CompileError.renumber σ)⟩

/-- The lines that a report names. -/
def Report.lines {α : Type} (x : Report α) : List Nat :=
  x.warnings.filterMap Warning.line ++
    match x.result with
    | .ok _ => []
    | .error e => e.line.toList

variable {σ τ : Nat → Nat} {entries : List (Nat × List Char)} {o : Options} {b : Nat}
  {e : CompileError} {w : Warning}

theorem Relabeling.report_ofLines {α : Type} (x : Report α) :
    (ofLines σ).report id x = x.renumber σ := by
  obtain ⟨warnings, result⟩ := x
  cases result <;> rfl

theorem CompileError.line_renumber : (e.renumber σ).line = e.line.map σ := by
  cases e <;> rfl

theorem CompileError.renumber_renumber : (e.renumber σ).renumber τ = e.renumber (τ ∘ σ) := by
  cases e with
  | invalidLoop line fault => cases fault <;> rfl
  | _ => rfl

theorem Warning.line_renumber : (w.renumber σ).line = w.line.map σ := by
  cases w <;> rfl

theorem Warning.renumber_renumber : (w.renumber σ).renumber τ = w.renumber (τ ∘ σ) := by
  cases w <;> rfl

theorem Report.renumber_renumber {α : Type} (x : Report α) :
    (x.renumber σ).renumber τ = x.renumber (τ ∘ σ) := by
  obtain ⟨warnings, result⟩ := x
  unfold renumber
  rw [List.map_map]
  congr 1
  · exact List.map_congr_left fun w _ => Warning.renumber_renumber
  · cases result with
    | ok a => rfl
    | error e => exact congrArg Except.error CompileError.renumber_renumber

theorem Report.lines_renumber {α : Type} (x : Report α) :
    (x.renumber σ).lines = x.lines.map σ := by
  obtain ⟨warnings, result⟩ := x
  have hwarnings : (warnings.map (Warning.renumber σ)).filterMap Warning.line =
      (warnings.filterMap Warning.line).map σ := by
    rw [List.filterMap_map, List.map_filterMap]
    exact List.filterMap_congr fun w _ => Warning.line_renumber
  unfold lines renumber
  rw [List.map_append, hwarnings]
  congr 1
  cases result with
  | ok a => rfl
  | error e =>
    show (e.renumber σ).line.toList = e.line.toList.map σ
    rw [CompileError.line_renumber, Option.toList_map]

theorem Record.relabel_ofLines (record : Record) : record.relabel (.ofLines σ) = record := by
  cases record with
  | mutex edges => exact congrArg Record.mutex (List.map_id edges)
  | _ => rfl

theorem Track.relabel_ofLines (t : Track) : t.relabel (.ofLines σ) = t := by
  obtain ⟨⟨nodes, edges, places, sensorCount, sensorSlots⟩, mutexes, loop⟩ := t
  have hnodes : nodes.map (Node.relabel (.ofLines σ)) = nodes := Array.map_id nodes
  have hplaces : (Relabeling.ofLines σ).places places = places := List.map_id places
  unfold Track.relabel Graph.relabel
  rw [hnodes, hplaces]

theorem readContent_renumber (entry : Nat × List Char) : readContent (σ entry.1, entry.2) =
    (ofLines σ).result (LineRecord.relabel (.ofLines σ)) (readContent entry) := by
  unfold readContent
  cases Record.read entry.2 with
  | error fault => rfl
  | ok record =>
    exact congrArg (fun record => Except.ok (LineRecord.mk (σ entry.1) record))
      record.relabel_ofLines.symm

/-- Other numbers in the same order change nothing but the lines that are reported. -/
theorem compileContents_renumber (hσ : StrictMono σ) (entries : List (Nat × List Char))
    (o : Options) : compileContents (entries.map fun entry => (σ entry.1, entry.2)) o =
      (compileContents entries o).renumber σ := by
  have hread : (entries.map fun entry => (σ entry.1, entry.2)).mapM readContent =
      (ofLines σ).result (List.map (LineRecord.relabel (.ofLines σ)))
        (entries.mapM readContent) :=
    result_mapM fun entry _ => readContent_renumber entry
  have htrack : Track.relabel (.ofLines σ) = id := funext Track.relabel_ofLines
  unfold compileContents
  rw [← report_ofLines, ← htrack]
  refine report_bind (report_ofExcept hread) fun records _ => ?_
  exact compileRecords_relabel (faithful_ofLines hσ) records o

/-! ## Numbers from zero on -/

/-- Gives the positions in a list of lines these lines, and goes on from the bound. -/
def numbering (lines : List Nat) (bound i : Nat) : Nat := lines[i]?.getD (bound + i)

theorem strictMono_numbering {lines : List Nat} (h : lines.Pairwise (· < ·))
    (hb : ∀ n ∈ lines, n < b) : StrictMono (numbering lines b) := by
  intro i j hij
  unfold numbering
  cases hj : lines[j]? with
  | none =>
    cases hi : lines[i]? with
    | none => simpa using hij
    | some m =>
      have := hb m (List.mem_of_getElem? hi)
      simp only [Option.getD_some, Option.getD_none]
      omega
  | some n =>
    obtain ⟨hjlt, rfl⟩ := List.getElem?_eq_some_iff.1 hj
    rw [List.getElem?_eq_getElem (Nat.lt_trans hij hjlt)]
    exact List.pairwise_iff_getElem.1 h i j (Nat.lt_trans hij hjlt) hjlt hij

/-- Two numberings that go on from different bounds agree on the listed lines alone. -/
theorem numbering_mem_of_eq {lines : List Nat} {i : Nat}
    (h : numbering lines b i = numbering lines (b + 1) i) : numbering lines b i ∈ lines := by
  unfold numbering at h ⊢
  cases hi : lines[i]? with
  | none =>
    rw [hi, Option.getD_none, Option.getD_none] at h
    omega
  | some n => exact List.mem_of_getElem? hi

theorem exists_bound (lines : List Nat) : ∃ b, ∀ n ∈ lines, n < b := by
  refine ⟨lines.sum + 1, fun n hn => Nat.lt_succ_of_le ?_⟩
  exact List.le_sum_of_mem hn

/-- The texts, numbered from zero on. -/
def enumerated (texts : List (List Char)) : List (Nat × List Char) := texts.zipIdx.map Prod.swap

theorem map_enumerated (entries : List (Nat × List Char)) (b : Nat) :
    (enumerated (entries.map Prod.snd)).map
      (fun entry => (numbering (entries.map Prod.fst) b entry.1, entry.2)) = entries := by
  refine List.ext_getElem? fun i => ?_
  unfold enumerated numbering
  rw [List.getElem?_map, List.getElem?_map, List.getElem?_zipIdx, List.getElem?_map]
  cases hi : entries[i]? with
  | none => rfl
  | some entry => simp [hi]

theorem compileContents_eq_renumber (h : (entries.map Prod.fst).Pairwise (· < ·))
    (hb : ∀ n ∈ entries.map Prod.fst, n < b) (o : Options) : compileContents entries o =
      (compileContents (enumerated (entries.map Prod.snd)) o).renumber
        (numbering (entries.map Prod.fst) b) := by
  rw [← compileContents_renumber (strictMono_numbering h hb), map_enumerated]

/-- The lines that are reported hold something. -/
theorem lines_compileContents_subset (h : (entries.map Prod.fst).Pairwise (· < ·))
    (o : Options) : (compileContents entries o).lines ⊆ entries.map Prod.fst := by
  obtain ⟨b, hb⟩ := exists_bound (entries.map Prod.fst)
  have hfirst := compileContents_eq_renumber h hb o
  have hsecond := compileContents_eq_renumber h (fun n hn => Nat.lt_succ_of_lt (hb n hn)) o
  have hlines := congrArg Report.lines (hfirst.symm.trans hsecond)
  rw [Report.lines_renumber, Report.lines_renumber] at hlines
  rw [hfirst, Report.lines_renumber]
  intro n hn
  obtain ⟨i, hi, rfl⟩ := List.mem_map.1 hn
  exact numbering_mem_of_eq (List.map_inj_left.1 hlines i hi)

/-- Lines that hold the same compile alike, however they are numbered. -/
theorem exists_renumber {entries entries' : List (Nat × List Char)}
    (h : (entries.map Prod.fst).Pairwise (· < ·)) (h' : (entries'.map Prod.fst).Pairwise (· < ·))
    (hsame : entries'.map Prod.snd = entries.map Prod.snd) :
    ∃ σ : Nat → Nat, entries' = entries.map (fun entry => (σ entry.1, entry.2)) ∧
      ∀ o, compileContents entries' o = (compileContents entries o).renumber σ := by
  obtain ⟨b, hb⟩ := exists_bound (entries.map Prod.fst)
  obtain ⟨b', hb'⟩ := exists_bound (entries'.map Prod.fst)
  -- from a line of the first text to its position, and on to the line of the second text
  let σ := numbering (entries'.map Prod.fst) b' ∘
    Function.invFun (numbering (entries.map Prod.fst) b)
  have hσ : σ ∘ numbering (entries.map Prod.fst) b = numbering (entries'.map Prod.fst) b' := by
    have hinv := Function.invFun_comp (strictMono_numbering h hb).injective
    exact congrArg (numbering (entries'.map Prod.fst) b' ∘ ·) hinv
  refine ⟨σ, ?_, fun o => ?_⟩
  · calc entries'
        = (enumerated (entries.map Prod.snd)).map (fun entry =>
            (numbering (entries'.map Prod.fst) b' entry.1, entry.2)) := by
          rw [← hsame, map_enumerated]
      _ = ((enumerated (entries.map Prod.snd)).map (fun entry =>
            (numbering (entries.map Prod.fst) b entry.1, entry.2))).map
              (fun entry => (σ entry.1, entry.2)) := by
          rw [← hσ, List.map_map]
          rfl
      _ = entries.map (fun entry => (σ entry.1, entry.2)) := by
          rw [map_enumerated]
  · rw [compileContents_eq_renumber h' hb', compileContents_eq_renumber h hb, hsame,
      Report.renumber_renumber, hσ]

/-- **Formatting.** A reformatted text compiles to the same track, or fails with the same error.
Error and warnings name the lines that hold in one text what the lines they name hold in the
other. -/
theorem compile_of_reformatted {text text' : String} (h : Reformatted text text') (o : Options) :
    ∃ σ : Nat → Nat, occupied text' = (occupied text).map (fun entry => (σ entry.1, entry.2)) ∧
      (compile text o).lines ⊆ (occupied text).map Prod.fst ∧
        compile text' o = (compile text o).renumber σ := by
  have hsame : (occupied text').map Prod.snd = (occupied text).map Prod.snd := by
    rw [map_snd_occupied, map_snd_occupied, contents_eq_of_edits h]
  obtain ⟨σ, hoccupied, hcompile⟩ :=
    exists_renumber (ascending_occupied text) (ascending_occupied text') hsame
  refine ⟨σ, hoccupied, ?_, ?_⟩
  · rw [compile_eq_compileContents]
    exact lines_compileContents_subset (ascending_occupied text) o
  · rw [compile_eq_compileContents, compile_eq_compileContents, hcompile]

/-- A loop over a node that does not exist. -/
def strayRound : String := "sensor A : 0 -> B @ B : 1 -> A\ncalib C"

/-- The same under a heading, with a carriage return and a blank. -/
def spacedRound : String := "# round\nsensor A : 0 -> B @ B : 1 -> A\r\ncalib C "

/-- A heading over two lines, a carriage return behind the first and a blank behind the second. -/
theorem edits_under_heading {heading : List Char} (hvacant : Vacant heading)
    (hline : '\n' ∉ heading) (first second : List Char) :
    Relation.EqvGen Edit (first ++ '\n' :: second)
      (heading ++ '\n' :: first ++ '\r' :: '\n' :: second ++ [' ']) := by
  have hheading : Edit (first ++ '\n' :: second) (heading ++ '\n' :: first ++ '\n' :: second) := by
    have hinsert : Edit ([] ++ (first ++ '\n' :: second))
        ([] ++ (heading ++ '\n' :: (first ++ '\n' :: second))) :=
      .insertLine (Or.inl rfl) hvacant hline
    simpa using hinsert
  have hpad : Edit (heading ++ '\n' :: first ++ '\r' :: '\n' :: second)
      (heading ++ '\n' :: first ++ '\r' :: '\n' :: second ++ [' ']) := by
    have hblank : AllBlank [' '] := by
      intro c hc
      rw [List.mem_singleton.1 hc]
      decide
    have hblanks : Edit (heading ++ '\n' :: first ++ '\r' :: '\n' :: second ++ [])
        (heading ++ '\n' :: first ++ '\r' :: '\n' :: second ++ ([' '] ++ [])) :=
      .pad (Or.inl rfl) hblank (by decide)
    simpa using hblanks
  exact .trans _ _ _ (.rel _ _ hheading) (.trans _ _ _ (.rel _ _ .carriageReturn) (.rel _ _ hpad))

theorem reformatted_strayRound : Reformatted strayRound spacedRound := by
  have hstray : strayRound.toList =
      "sensor A : 0 -> B @ B : 1 -> A".toList ++ '\n' :: "calib C".toList := by
    decide +kernel
  have hspaced : spacedRound.toList = "# round".toList ++
      '\n' :: "sensor A : 0 -> B @ B : 1 -> A".toList ++ '\r' :: '\n' :: "calib C".toList ++
        [' '] := by
    decide +kernel
  have hvacant : Vacant "# round".toList := Or.inr (by decide +kernel)
  unfold Reformatted
  rw [hstray, hspaced]
  exact edits_under_heading hvacant (by decide +kernel) _ _

/-- The missing node is missing on the third line, which was the second. -/
theorem compile_spacedRound : Reformatted strayRound spacedRound ∧
    (compile strayRound {}).result = .error (.unknownName 2 "C") ∧
      (compile spacedRound {}).result = .error (.unknownName 3 "C") := by
  have h : (compile strayRound {}).result = .error (.unknownName 2 "C") := by decide +kernel
  have hlines : (occupied strayRound).map Prod.fst = [1, 2] := by decide +kernel
  have hlines' : (occupied spacedRound).map Prod.fst = [2, 3] := by decide +kernel
  obtain ⟨σ, hoccupied, -, hcompile⟩ := compile_of_reformatted reformatted_strayRound {}
  -- the second line that holds something is the third one now
  have hσ : [σ 1, σ 2] = [2, 3] := by
    rw [← hlines', hoccupied, List.map_map]
    show [1, 2].map σ = _
    rw [← hlines, List.map_map]
    rfl
  rw [List.cons.injEq, List.cons.injEq] at hσ
  refine ⟨reformatted_strayRound, h, ?_⟩
  rw [hcompile]
  show (compile strayRound {}).result.mapError (CompileError.renumber σ) = _
  rw [h]
  show Except.error (CompileError.unknownName (σ 2) "C") = _
  rw [hσ.2.1]

end TrackPlan
