import TrackPlan.Proofs.Record.Reading

/-!
# Where reading fails

The reader fails at the first line of a text that is neither vacant nor a record, and quotes it
(`readRecords_eq_error_iff`).
-/

namespace TrackPlan

open Text

variable {n : Nat} {raw : List Char} {ls : List (List Char)} {e : CompileError}

/-- The line is neither blank, nor a comment, nor a record. -/
def Unreadable (raw : List Char) : Prop :=
  ¬ Vacant raw ∧ ∀ record : Record, ¬ record.SpelledBy (trim raw)

theorem exists_readLine_eq_error_iff (hn : '\n' ∉ raw) :
    (∃ e, readLine n raw = .error e) ↔ Unreadable raw := by
  refine Iff.trans ⟨?_, ?_⟩ (exists_readLine_eq_malformed_iff (n := n) hn)
  · rintro ⟨e, he⟩
    obtain ⟨fault, rfl⟩ := exists_malformed_of_readLine he
    exact ⟨fault, he⟩
  · rintro ⟨fault, he⟩
    exact ⟨_, he⟩

theorem exists_readLine_eq_ok_iff (hn : '\n' ∉ raw) :
    (∃ record?, readLine n raw = .ok record?) ↔ ¬ Unreadable raw := by
  rw [← exists_readLine_eq_error_iff (n := n) hn]
  cases readLine n raw <;> simp

/-- The run: the reader fails at the first unreadable line. -/
theorem readLines_eq_error_iff (hn : ∀ l ∈ ls, '\n' ∉ l) : readLines n ls = .error e ↔
    ∃ before raw after, ls = before ++ raw :: after ∧ (∀ l ∈ before, ¬ Unreadable l) ∧
      readLine (n + before.length) raw = .error e := by
  induction ls generalizing n with
  | nil => simp [readLines]
  | cons first rest ih =>
    obtain ⟨hfirst, hrest⟩ := List.forall_mem_cons.1 hn
    unfold readLines
    rw [bind_eq_error_iff]
    constructor
    · rintro (he | ⟨record?, hread, he⟩)
      · exact ⟨[], first, rest, rfl, by simp, he⟩
      · have he : readLines (n + 1) rest = .error e := by
          rcases bind_eq_error_iff.1 he with he | ⟨records, -, he⟩
          · exact he
          · cases record? <;> cases he
        obtain ⟨before, raw, after, rfl, hbefore, he⟩ := (ih hrest).1 he
        refine ⟨first :: before, raw, after, rfl, ?_, ?_⟩
        · rw [List.forall_mem_cons]
          exact ⟨(exists_readLine_eq_ok_iff hfirst).1 ⟨_, hread⟩, hbefore⟩
        · rw [List.length_cons, ← Nat.add_assoc, Nat.add_right_comm]
          exact he
    · rintro ⟨_ | ⟨l, before⟩, raw, after, heq, hbefore, he⟩
      · cases heq
        exact Or.inl he
      · obtain ⟨rfl, rfl⟩ := List.cons.inj heq
        obtain ⟨hl, hbefore⟩ := List.forall_mem_cons.1 hbefore
        obtain ⟨record?, hread⟩ := (exists_readLine_eq_ok_iff (n := n) hfirst).2 hl
        refine Or.inr ⟨record?, hread, bind_eq_error_iff.2 (Or.inl ?_)⟩
        refine (ih hrest).2 ⟨before, raw, after, rfl, hbefore, ?_⟩
        rwa [Nat.add_assoc, Nat.add_comm 1]

/-- A text is not read just if it has an unreadable line. The error is that of the first one. -/
theorem readRecords_eq_error_iff {text : String} : readRecords text = .error e ↔
    ∃ before raw after, lines text.toList = before ++ raw :: after ∧
      (∀ l ∈ before, ¬ Unreadable l) ∧ readLine (before.length + 1) raw = .error e := by
  unfold readRecords
  rw [readLines_eq_error_iff newline_notMem_lines]
  simp only [Nat.add_comm 1]

end TrackPlan
