import TrackPlan.Proofs.Record.Entries
import TrackPlan.Record.Reader

/-!
# The reader and the grammar

Each scanner takes the pieces that it stands for, as long as they go; so a shape reads what the
pieces of its records spell, and the reader of a text finds the records that the text describes.

1. `Scanner.run_…` say which pieces each scanner takes.
2. `whole_…Shape` say it of the seven shapes, and `read_eq_ok_iff` of all of them together.
3. `readLine_cases` says what becomes of one line, and `readRecords_eq_ok_iff` is the run over the
   lines.
-/

namespace TrackPlan

open Text Piece

/-! ## Scanners -/

namespace Scanner

variable {α β : Type} {cs rest : List Char}

theorem run_bind_eq_some_iff {s : Scanner α} {k : α → Scanner β} {b : β} :
    (s >>= k).run cs = some (b, rest) ↔
      ∃ a mid, s.run cs = some (a, mid) ∧ (k a).run mid = some (b, rest) := by
  rw [StateT.run_bind, Option.bind_eq_bind, Option.bind_eq_some_iff, Prod.exists]

theorem run_pure_eq_some_iff {a b : α} :
    (pure a : Scanner α).run cs = some (b, rest) ↔ a = b ∧ cs = rest := by
  rw [StateT.run_pure]
  simp [pure]

theorem run_map_eq_some_iff {s : Scanner α} {f : α → β} {b : β} :
    (f <$> s).run cs = some (b, rest) ↔ ∃ a, s.run cs = some (a, rest) ∧ f a = b := by
  rw [StateT.run_map]
  simp [Option.map_eq_some_iff]

theorem run_stretch {p : Char → Bool} {w : List Char} :
    (stretch p).run cs = some (w, rest) ↔
      cs = w ++ rest ∧ w ≠ [] ∧ (∀ c ∈ w, p c = true) ∧ ∀ c ∈ rest.head?, p c = false := by
  have hrun : (stretch p).run cs = some (w, rest) ↔
      w ≠ [] ∧ cs.takeWhile p = w ∧ cs.dropWhile p = rest := by
    unfold stretch StateT.run
    dsimp only
    cases cs.takeWhile p with
    | nil =>
      apply iff_of_false (by simp)
      rintro ⟨hw, rfl, -⟩
      exact hw rfl
    | cons c taken =>
      dsimp only
      rw [Option.some.injEq, Prod.mk.injEq, iff_and_self]
      rintro ⟨rfl, -⟩
      simp
  rw [hrun, takeWhile_dropWhile_iff, and_left_comm]

theorem run_name {s : String} : name.run cs = some (s, rest) ↔ (word s).Takes cs rest := by
  unfold name Takes
  simp only [run_map_eq_some_iff, run_stretch]
  constructor
  · intro h
    obtain ⟨w, ⟨rfl, hne, hw, hstop⟩, rfl⟩ := h
    exact ⟨w, rfl, ⟨String.toList_ofList.symm, hne, hw⟩, hstop⟩
  · intro h
    obtain ⟨w, rfl, ⟨rfl, hne, hw⟩, hstop⟩ := h
    exact ⟨_, ⟨rfl, hne, hw, hstop⟩, String.ofList_toList⟩

theorem run_numeral {n : Nat} : numeral.run cs = some (n, rest) ↔ (number n).Takes cs rest := by
  unfold numeral Takes
  simp only [run_map_eq_some_iff, run_stretch]
  constructor
  · intro h
    obtain ⟨w, ⟨rfl, hne, hw, hstop⟩, rfl⟩ := h
    exact ⟨w, rfl, ⟨rfl, hne, hw⟩, hstop⟩
  · intro h
    obtain ⟨w, rfl, ⟨rfl, hne, hw⟩, hstop⟩ := h
    exact ⟨_, ⟨rfl, hne, hw, hstop⟩, rfl⟩

theorem run_blanks {u : Unit} :
    Scanner.blanks.run cs = some (u, rest) ↔ Piece.blanks.Takes cs rest := by
  have hrun : Scanner.blanks.run cs = some (u, rest) ↔ cs.dropWhile isBlank = rest := by
    unfold Scanner.blanks StateT.run
    simp
  rw [hrun, dropWhile_eq_iff]
  rfl

theorem run_gap {u : Unit} : Scanner.gap.run cs = some (u, rest) ↔ Piece.gap.Takes cs rest := by
  have hrun : Scanner.gap.run cs = some (u, rest) ↔
      ∃ w, (stretch isBlank).run cs = some (w, rest) := by
    unfold Scanner.gap stretch StateT.run
    cases cs with
    | nil => simp
    | cons c cs =>
      by_cases hc : isBlank c = true <;> simp [hc]
  simp only [hrun, run_stretch]
  exact exists_congr fun w => and_congr_right fun _ => and_assoc.symm

theorem run_exactly {l : List Char} {u : Unit} :
    (exactly l).run cs = some (u, rest) ↔ cs = l ++ rest := by
  induction l generalizing cs with
  | nil =>
    show some ((), cs) = some (u, rest) ↔ cs = rest
    simp
  | cons a l ih =>
    cases cs with
    | nil => simp [exactly, StateT.run]
    | cons c cs =>
      by_cases hac : a = c
      · subst hac
        rw [List.cons_append, List.cons.injEq, ← ih]
        simp [exactly, StateT.run]
      · simp [exactly, StateT.run, hac, Ne.symm hac]

theorem run_lit {s : String} {u : Unit} :
    (exactly s.toList).run cs = some (u, rest) ↔ (lit s).Takes cs rest := by
  rw [run_exactly]
  unfold Takes
  constructor
  · intro h
    exact ⟨_, h, rfl, fun _ _ => rfl⟩
  · intro hs
    obtain ⟨_, h, rfl, -⟩ := hs
    exact h

theorem run_finish {u : Unit} : finish.run cs = some (u, rest) ↔ cs = [] ∧ rest = [] := by
  cases cs <;> simp [finish, StateT.run, eq_comm]

theorem run_mark {m : String} {u : Unit} :
    (Scanner.mark m).run cs = some (u, rest) ↔ Follow (Piece.mark m) cs rest := by
  unfold Scanner.mark Piece.mark
  simp only [run_bind_eq_some_iff, run_blanks, run_lit, marks, List.cons_append, List.nil_append,
    Follow, exists_const, exists_eq_right]

theorem run_keyword {w : String} {u : Unit} :
    (Scanner.keyword w).run cs = some (u, rest) ↔ Follow (Piece.keyword w) cs rest := by
  unfold Scanner.keyword Piece.keyword
  simp only [run_bind_eq_some_iff, run_gap, run_lit, Follow, exists_const, exists_eq_right]

theorem whole_eq_some_iff {s : Scanner α} {a : α} :
    s.whole cs = some a ↔ ∃ rest, s.run cs = some (a, rest) := by
  unfold whole
  simp [Option.map_eq_some_iff]

end Scanner

open Scanner

theorem inRange_eq_ok {n : Nat} {a : UInt32} : inRange n = .ok a ↔ n = a.toNat := by
  unfold inRange
  split
  · next h =>
    rw [Except.ok.injEq]
    constructor
    · rintro rfl
      exact (UInt32.toNat_ofNat_of_lt h).symm
    · rintro rfl
      exact UInt32.ofNat_toNat
  · next h =>
    apply iff_of_false (by simp)
    rintro rfl
    exact h a.toNat_lt

namespace Record

variable {cs rest : List Char} {record : Record}

/-! ## Shapes -/

theorem run_sensorHalf {name ahead : String} {n : Nat} :
    sensorHalf.run cs = some ((name, n, ahead), rest) ↔
      Follow (numbered name n [word ahead]) cs rest := by
  unfold sensorHalf numbered
  simp only [run_bind_eq_some_iff, run_pure_eq_some_iff, run_name, run_numeral, run_mark,
    follow_append, follow_singleton]
  constructor
  · intro h
    obtain ⟨name, m₁, h₁, -, m₂, h₂, n, m₃, h₃, -, m₄, h₄, ahead, m₅, h₅, ⟨⟩, rfl⟩ := h
    exact ⟨m₁, h₁, m₂, h₂, m₃, h₃, m₄, h₄, h₅⟩
  · intro h
    obtain ⟨m₁, h₁, m₂, h₂, m₃, h₃, m₄, h₄, h₅⟩ := h
    exact ⟨_, m₁, h₁, (), m₂, h₂, _, m₃, h₃, (), m₄, h₄, _, _, h₅, rfl, rfl⟩

theorem run_separatorHalf {name ahead : String} :
    separatorHalf.run cs = some (⟨name, ahead⟩, rest) ↔
      Follow (following name ahead) cs rest := by
  unfold separatorHalf following
  simp only [run_bind_eq_some_iff, run_pure_eq_some_iff, run_name, run_mark, follow_append,
    follow_singleton]
  constructor
  · intro h
    obtain ⟨name, m₁, h₁, -, m₂, h₂, ahead, m₃, h₃, ⟨⟩, rfl⟩ := h
    exact ⟨m₁, h₁, m₂, h₂, h₃⟩
  · intro h
    obtain ⟨m₁, h₁, m₂, h₂, h₃⟩ := h
    exact ⟨_, m₁, h₁, (), m₂, h₂, _, _, h₃, rfl, rfl⟩

theorem run_namePair {e : String × String} :
    namePair.run cs = some (e, rest) ↔ Follow (pair e) cs [] ∧ rest = [] := by
  unfold namePair pair
  simp only [run_bind_eq_some_iff, run_pure_eq_some_iff, run_name, run_gap, run_finish, Follow]
  constructor
  · intro h
    obtain ⟨src, m₁, h₁, -, m₂, h₂, dest, m₃, h₃, -, m₄, ⟨rfl, rfl⟩, rfl, rfl⟩ := h
    exact ⟨⟨m₁, h₁, m₂, h₂, _, h₃, rfl⟩, rfl⟩
  · intro h
    obtain ⟨⟨m₁, h₁, m₂, h₂, _, h₃, rfl⟩, rfl⟩ := h
    exact ⟨_, m₁, h₁, (), m₂, h₂, _, _, h₃, (), _, ⟨rfl, rfl⟩, rfl, rfl⟩

theorem whole_sensorShape : sensorShape.whole cs = some (.ok record) ↔
    ∃ f b, record = .sensors f b ∧ Follow record.pieces cs [] := by
  unfold sensorShape
  simp only [whole_eq_some_iff, run_bind_eq_some_iff, run_pure_eq_some_iff, run_keyword, run_mark,
    run_finish]
  constructor
  · rintro ⟨_, -, m₁, h₁, ⟨name, n, ahead⟩, m₂, h₂, -, m₃, h₃, ⟨name', n', ahead'⟩, m₄, h₄,
      -, m₅, ⟨rfl, rfl⟩, hres, rfl⟩
    simp only [bind_eq_ok_iff, inRange_eq_ok, pure_eq_ok_iff] at hres
    obtain ⟨a, rfl, a', rfl, rfl⟩ := hres
    refine ⟨_, _, rfl, ?_⟩
    simp only [pieces, follow_append]
    exact ⟨m₁, h₁, m₂, run_sensorHalf.1 h₂, m₃, h₃, run_sensorHalf.1 h₄⟩
  · intro hs
    obtain ⟨f, b, rfl, h⟩ := hs
    simp only [pieces, follow_append] at h
    obtain ⟨m₁, h₁, m₂, h₂, m₃, h₃, h₄⟩ := h
    refine ⟨_, (), m₁, h₁, _, m₂, run_sensorHalf.2 h₂, (), m₃, h₃, _, _, run_sensorHalf.2 h₄,
      (), _, ⟨rfl, rfl⟩, ?_, rfl⟩
    simp only [bind_eq_ok_iff, inRange_eq_ok, pure_eq_ok_iff]
    exact ⟨_, rfl, _, rfl, rfl⟩

theorem whole_separatorShape : separatorShape.whole cs = some (.ok record) ↔
    ∃ f b, record = .separators f b ∧ Follow record.pieces cs [] := by
  unfold separatorShape
  simp only [whole_eq_some_iff, run_bind_eq_some_iff, run_pure_eq_some_iff, run_keyword, run_mark,
    run_finish]
  constructor
  · intro hs
    obtain ⟨_, -, m₁, h₁, f, m₂, h₂, -, m₃, h₃, b, m₄, h₄, -, m₅, ⟨rfl, rfl⟩, ⟨⟩, rfl⟩ := hs
    refine ⟨_, _, rfl, ?_⟩
    simp only [pieces, follow_append]
    exact ⟨m₁, h₁, m₂, run_separatorHalf.1 h₂, m₃, h₃, run_separatorHalf.1 h₄⟩
  · intro hs
    obtain ⟨f, b, rfl, h⟩ := hs
    simp only [pieces, follow_append] at h
    obtain ⟨m₁, h₁, m₂, h₂, m₃, h₃, h₄⟩ := h
    exact ⟨_, (), m₁, h₁, _, m₂, run_separatorHalf.2 h₂, (), m₃, h₃, _, _, run_separatorHalf.2 h₄,
      (), _, ⟨rfl, rfl⟩, rfl, rfl⟩

theorem whole_switchShape : switchShape.whole cs = some (.ok record) ↔
    ∃ branch number straight curved merge ahead,
      record = .switch branch number straight curved merge ahead ∧ Follow record.pieces cs [] := by
  unfold switchShape
  simp only [whole_eq_some_iff, run_bind_eq_some_iff, run_pure_eq_some_iff, run_keyword, run_mark,
    run_name, run_numeral, run_finish]
  constructor
  · rintro ⟨_, -, m₁, h₁, branch, m₂, h₂, -, m₃, h₃, n, m₄, h₄, -, m₅, h₅, straight, m₆, h₆,
      -, m₇, h₇, -, m₈, h₈, curved, m₉, h₉, -, m₁₀, h₁₀, -, m₁₁, h₁₁, half, m₁₂, h₁₂,
      -, m₁₃, ⟨rfl, rfl⟩, hres, rfl⟩
    simp only [bind_eq_ok_iff, inRange_eq_ok, pure_eq_ok_iff] at hres
    obtain ⟨a, rfl, rfl⟩ := hres
    refine ⟨_, _, _, _, _, _, rfl, ?_⟩
    simp only [pieces, numbered, follow_append, follow_singleton]
    exact ⟨m₁, h₁, m₂, h₂, m₃, h₃, m₄, h₄, m₅, h₅, m₆, h₆, m₈, follow_marks_pair.2 ⟨m₇, h₇, h₈⟩,
      m₉, h₉, m₁₁, follow_marks_pair.2 ⟨m₁₀, h₁₀, h₁₁⟩, run_separatorHalf.1 h₁₂⟩
  · intro hs
    obtain ⟨branch, n, straight, curved, merge, ahead, rfl, h⟩ := hs
    simp only [pieces, numbered, follow_append, follow_singleton] at h
    obtain ⟨m₁, h₁, m₂, h₂, m₃, h₃, m₄, h₄, m₅, h₅, m₆, h₆, m₈, h₈, m₉, h₉, m₁₁, h₁₁, h₁₂⟩ := h
    obtain ⟨m₇, h₇, h₈⟩ := follow_marks_pair.1 h₈
    obtain ⟨m₁₀, h₁₀, h₁₁⟩ := follow_marks_pair.1 h₁₁
    refine ⟨_, (), m₁, h₁, _, m₂, h₂, (), m₃, h₃, _, m₄, h₄, (), m₅, h₅, _, m₆, h₆, (), m₇, h₇,
      (), m₈, h₈, _, m₉, h₉, (), m₁₀, h₁₀, (), m₁₁, h₁₁, _, _, run_separatorHalf.2 h₁₂,
      (), _, ⟨rfl, rfl⟩, ?_, rfl⟩
    simp only [bind_eq_ok_iff, inRange_eq_ok, pure_eq_ok_iff]
    exact ⟨_, rfl, rfl⟩

theorem whole_terminalShape : terminalShape.whole cs = some (.ok record) ↔
    ∃ enter ahead exit, record = .terminal enter ahead exit ∧ Follow record.pieces cs [] := by
  unfold terminalShape
  simp only [whole_eq_some_iff, run_bind_eq_some_iff, run_pure_eq_some_iff, run_keyword, run_mark,
    run_name, run_finish]
  constructor
  · intro hs
    obtain ⟨_, -, m₁, h₁, half, m₂, h₂, -, m₃, h₃, exit, m₄, h₄, -, m₅, ⟨rfl, rfl⟩, ⟨⟩, rfl⟩ := hs
    refine ⟨_, _, _, rfl, ?_⟩
    simp only [pieces, follow_append, follow_singleton]
    exact ⟨m₁, h₁, m₂, run_separatorHalf.1 h₂, m₃, h₃, h₄⟩
  · intro hs
    obtain ⟨enter, ahead, exit, rfl, h⟩ := hs
    simp only [pieces, follow_append, follow_singleton] at h
    obtain ⟨m₁, h₁, m₂, h₂, m₃, h₃, h₄⟩ := h
    exact ⟨_, (), m₁, h₁, _, m₂, run_separatorHalf.2 h₂, (), m₃, h₃, _, _, h₄, (), _, ⟨rfl, rfl⟩,
      rfl, rfl⟩

theorem whole_distanceShape : distanceShape.whole cs = some (.ok record) ↔
    ∃ src dest millimeters, record = .distance src dest millimeters ∧ millimeters ≠ 0 ∧
      Follow record.pieces cs [] := by
  unfold distanceShape
  simp only [whole_eq_some_iff, run_bind_eq_some_iff, run_pure_eq_some_iff, run_keyword, run_name,
    run_gap, run_numeral, run_blanks, run_lit, run_finish]
  constructor
  · rintro ⟨_, -, m₁, h₁, src, m₂, h₂, -, m₃, h₃, dest, m₄, h₄, -, m₅, h₅, n, m₆, h₆, -, m₇, h₇,
      -, m₈, h₈, -, m₉, ⟨rfl, rfl⟩, hres, rfl⟩
    obtain ⟨a, ha, hmm⟩ := bind_eq_ok_iff.1 hres
    obtain rfl := inRange_eq_ok.1 ha
    obtain ⟨hzero, hrecord⟩ := ite_throw_eq_ok.1 hmm
    obtain rfl := pure_eq_ok_iff.1 hrecord
    refine ⟨_, _, _, rfl, hzero, ?_⟩
    simp only [pieces, pair, List.cons_append, List.nil_append, follow_append, Follow]
    exact ⟨m₁, h₁, m₂, h₂, m₃, h₃, m₄, h₄, m₅, h₅, m₆, h₆, m₇, h₇, _, h₈, rfl⟩
  · intro hs
    obtain ⟨src, dest, millimeters, rfl, hzero, h⟩ := hs
    simp only [pieces, pair, List.cons_append, List.nil_append, follow_append, Follow] at h
    obtain ⟨m₁, h₁, m₂, h₂, m₃, h₃, m₄, h₄, m₅, h₅, m₆, h₆, m₇, h₇, _, h₈, rfl⟩ := h
    refine ⟨_, (), m₁, h₁, _, m₂, h₂, (), m₃, h₃, _, m₄, h₄, (), m₅, h₅, _, m₆, h₆, (), m₇, h₇,
      (), _, h₈, (), _, ⟨rfl, rfl⟩, ?_, rfl⟩
    exact bind_eq_ok_iff.2 ⟨_, inRange_eq_ok.2 rfl, ite_throw_eq_ok.2 ⟨hzero, rfl⟩⟩

theorem whole_calibrationShape : calibrationShape.whole cs = some (.ok record) ↔
    ∃ node, record = .calibration node ∧ Follow record.pieces cs [] := by
  unfold calibrationShape
  simp only [whole_eq_some_iff, run_bind_eq_some_iff, run_pure_eq_some_iff, run_keyword, run_name,
    run_finish]
  constructor
  · intro hs
    obtain ⟨_, -, m₁, h₁, node, m₂, h₂, -, m₃, ⟨rfl, rfl⟩, ⟨⟩, rfl⟩ := hs
    refine ⟨_, rfl, ?_⟩
    simp only [pieces, follow_append, follow_singleton]
    exact ⟨m₁, h₁, h₂⟩
  · intro hs
    obtain ⟨node, rfl, h⟩ := hs
    simp only [pieces, follow_append, follow_singleton] at h
    obtain ⟨m₁, h₁, h₂⟩ := h
    exact ⟨_, (), m₁, h₁, _, _, h₂, (), _, ⟨rfl, rfl⟩, rfl, rfl⟩

theorem mutexEntry_eq_ok {part : List Char} {e : String × String} :
    mutexEntry part = .ok e ↔ Spells (pair e) (trim part) := by
  have hsep : Separated (pair e) := separated_pairs [e]
  have hwhole : namePair.whole (trim part) = some e ↔ Spells (pair e) (trim part) := by
    rw [spells_iff_follow hsep]
    simp only [whole_eq_some_iff, run_namePair, exists_and_left, exists_eq, and_true]
  rw [← hwhole]
  unfold mutexEntry
  split
  · next e' h => rw [h, Except.ok.injEq, Option.some.injEq]
  · next h => simp [h]

/-- The shape of a mutex record takes all that is left of the line, so the line must not hold a line
feed or end with a blank. -/
theorem whole_mutexShape (hn : '\n' ∉ cs) (hb : Bare cs) :
    mutexShape.whole cs = some (.ok record) ↔
      ∃ edges, record = .mutex edges ∧ edges ≠ [] ∧ Follow record.pieces cs [] := by
  have hentries : ∀ {body edges}, Bare body →
      ((splitAt ':' body).mapM mutexEntry = .ok edges ↔
        edges ≠ [] ∧ Follow (pairs edges) body []) := by
    intro body edges hbody
    rw [mapM_eq_ok_iff, ← spells_iff_follow (separated_pairs edges)]
    simp only [mutexEntry_eq_ok, forall₂_splitAt_iff, hbody.trim_eq]
  unfold mutexShape
  simp only [whole_eq_some_iff, run_bind_eq_some_iff, run_pure_eq_some_iff, run_keyword,
    run_stretch, run_finish, pieces]
  constructor
  · intro hs
    obtain ⟨_, -, _, h₁, body, _, ⟨rfl, hne, -⟩, -, _, ⟨rfl, rfl⟩, hres, rfl⟩ := hs
    rw [List.append_nil] at h₁
    obtain ⟨edges, hedges, rfl⟩ := map_eq_ok_iff.1 hres
    obtain ⟨g, rfl, -, hstop⟩ := follow_keyword_iff.1 h₁
    have hbody : Bare body := by
      refine ⟨hstop, fun c hc => hb.2 c ?_⟩
      rwa [← List.append_assoc, List.getLast?_append_of_ne_nil _ hne]
    obtain ⟨hedges, hpairs⟩ := (hentries hbody).1 hedges
    refine ⟨edges, rfl, hedges, ?_⟩
    exact follow_append.2 ⟨body, h₁, hpairs⟩
  · intro hs
    obtain ⟨edges, rfl, hedges, h⟩ := hs
    rw [follow_append] at h
    obtain ⟨body, h₁, hpairs⟩ := h
    have hspells := (spells_iff_follow (separated_pairs edges)).2 hpairs
    obtain ⟨e, rest, rfl⟩ := List.exists_cons_of_ne_nil hedges
    obtain ⟨hbody, hne⟩ := bare_of_spells_pairs hspells
    obtain ⟨g, rfl, -, -⟩ := follow_keyword_iff.1 h₁
    have hfeed : ∀ c ∈ body, (c != '\n') = true := by
      intro c hc
      rw [bne_iff_ne]
      rintro rfl
      exact hn (by simp [hc])
    refine ⟨_, (), body, h₁, body, [], ⟨by simp, hne, hfeed, by simp⟩, (), [], ⟨rfl, rfl⟩, ?_, rfl⟩
    exact map_eq_ok_iff.2 ⟨_, (hentries hbody).2 ⟨hedges, hpairs⟩, rfl⟩

/-! ## All shapes -/

/-- The shapes, each with its keyword. -/
def headed : List (String × Shape) :=
  [("sensor", sensorShape), ("sep", separatorShape), ("switch", switchShape),
    ("enter", terminalShape), ("dist", distanceShape), ("mutex", mutexShape),
    ("calib", calibrationShape)]

/-- Every shape begins with its keyword. -/
theorem keyword_of_headed {p : String × Shape} (hp : p ∈ headed) {x : Except LineFault Record}
    (h : p.2.whole cs = some x) : ∃ mid, Follow (Piece.keyword p.1) cs mid := by
  have hkey : ∃ k, p.2 = Scanner.keyword p.1 >>= k := by
    simp only [headed, List.mem_cons, List.not_mem_nil, or_false] at hp
    rcases hp with rfl | rfl | rfl | rfl | rfl | rfl | rfl <;> exact ⟨_, rfl⟩
  obtain ⟨k, hk⟩ := hkey
  obtain ⟨rest, hrun⟩ := whole_eq_some_iff.1 (hk ▸ h)
  obtain ⟨u, mid, hmid, -⟩ := run_bind_eq_some_iff.1 hrun
  exact ⟨mid, run_keyword.1 hmid⟩

/-- A keyword is the first word of its line. -/
theorem takeWhile_of_keyword {w : String} {mid : List Char}
    (hw : ∀ c ∈ w.toList, isWordChar c = true) (h : Follow (Piece.keyword w) cs mid) :
    cs.takeWhile isWordChar = w.toList := by
  obtain ⟨g, rfl, ⟨hne, hg⟩, -⟩ := follow_keyword_iff.1 h
  refine (takeWhile_dropWhile_iff.2 ⟨rfl, hw, fun c hc => ?_⟩).1
  obtain ⟨a, g, rfl⟩ := List.exists_cons_of_ne_nil hne
  obtain rfl : a = c := by simpa using hc
  exact isWordChar_eq_false_of_isBlank (hg a (by simp))

/-- At most one shape fits. -/
theorem headed_unique {p q : String × Shape} (hp : p ∈ headed) (hq : q ∈ headed)
    {x y : Except LineFault Record} (hx : p.2.whole cs = some x) (hy : q.2.whole cs = some y) :
    p = q := by
  have hword : ∀ p ∈ headed, p.1.toList.all isWordChar = true := by decide
  have hnames : (headed.map Prod.fst).Nodup := by decide
  obtain ⟨m, hm⟩ := keyword_of_headed hp hx
  obtain ⟨m', hm'⟩ := keyword_of_headed hq hy
  refine List.inj_on_of_nodup_map hnames hp hq (String.toList_injective ?_)
  rw [← takeWhile_of_keyword (List.all_eq_true.1 (hword p hp)) hm,
    takeWhile_of_keyword (List.all_eq_true.1 (hword q hq)) hm']

/-- A text is read as a record if one of the shapes reads it so. -/
theorem read_eq_ok_iff_exists :
    read cs = .ok record ↔ ∃ p ∈ headed, p.2.whole cs = some (.ok record) := by
  have hshapes : shapes = headed.map Prod.snd := rfl
  unfold read
  rw [hshapes, List.findSome?_map]
  constructor
  · intro h
    split at h
    · next result hfind =>
      obtain ⟨p, hp, hread⟩ := List.exists_of_findSome?_eq_some hfind
      exact ⟨p, hp, h ▸ hread⟩
    · cases h
  · intro hs
    obtain ⟨p, hp, hread⟩ := hs
    split
    · next result hfind =>
      obtain ⟨q, hq, hread'⟩ := List.exists_of_findSome?_eq_some hfind
      obtain rfl := headed_unique hp hq hread hread'
      have hread' : p.2.whole cs = some result := hread'
      rw [hread, Option.some.injEq] at hread'
      exact hread'.symm
    · next hfind =>
      have hnone : p.2.whole cs = none := List.findSome?_eq_none_iff.1 hfind p hp
      rw [hread] at hnone
      cases hnone

/-- The reader reads just what spells the record. -/
theorem read_eq_ok_iff (hn : '\n' ∉ cs) (hb : Bare cs) :
    read cs = .ok record ↔ record.SpelledBy cs := by
  rw [read_eq_ok_iff_exists, SpelledBy, spells_iff_follow record.separated_pieces]
  simp only [headed, List.exists_mem_cons_iff, List.not_mem_nil, false_and, exists_false, or_false,
    whole_sensorShape, whole_separatorShape, whole_switchShape, whole_terminalShape,
    whole_distanceShape, whole_mutexShape hn hb, whole_calibrationShape]
  cases record <;> simp [Sound]

end Record

/-! ## Lines -/

theorem isVacant_iff {raw : List Char} : isVacant (trim raw) = true ↔ Vacant raw := by
  unfold Vacant isVacant
  cases trim raw <;> simp

theorem readLine_eq_ok_none_iff {n : Nat} {raw : List Char} :
    readLine n raw = .ok none ↔ Vacant raw := by
  rw [← isVacant_iff]
  unfold readLine
  dsimp only
  split
  · next h => simp [h]
  · next h =>
    refine iff_of_false ?_ h
    split <;> simp

/-- A record begins with its keyword, so its line is not vacant. -/
theorem Record.SpelledBy.not_vacant {record : Record} {raw : List Char}
    (h : record.SpelledBy (trim raw)) : ¬ Vacant raw := by
  have hhead : ∃ w ps c, record.pieces = Piece.keyword w ++ ps ∧ w.toList.head? = some c ∧
      c ≠ '#' := by
    cases record <;> exact ⟨_, _, _, rfl, rfl, by decide⟩
  obtain ⟨w, ps, c, hpieces, hw, hc⟩ := hhead
  obtain ⟨-, hspells⟩ := h
  rw [hpieces, spells_append] at hspells
  obtain ⟨_, back, htrim, ⟨front, g, rfl, rfl, -⟩, -⟩ := hspells
  have hfirst : (trim raw).head? = some c := by
    rw [htrim, List.append_assoc, List.head?_append, hw, Option.some_or]
  rintro (hnil | hhash)
  · rw [hnil] at hfirst
    cases hfirst
  · rw [hfirst, Option.some.injEq] at hhash
    exact hc hhash

theorem readLine_eq_ok_some_iff {n : Nat} {raw : List Char} {record : Record} (hn : '\n' ∉ raw) :
    readLine n raw = .ok (some record) ↔ record.SpelledBy (trim raw) := by
  rw [← Record.read_eq_ok_iff (mt mem_of_mem_trim hn) (bare_trim raw)]
  unfold readLine
  dsimp only
  split
  · next h =>
    refine iff_of_false (by simp) fun hread => ?_
    rw [Record.read_eq_ok_iff (mt mem_of_mem_trim hn) (bare_trim raw)] at hread
    exact hread.not_vacant (isVacant_iff.1 h)
  · split
    · next h => simp [h]
    · next h => simp [h]

/-- The only error of a line quotes all of it, apart from the blanks at either end. -/
theorem exists_malformed_of_readLine {n : Nat} {raw : List Char} {e : CompileError}
    (h : readLine n raw = .error e) :
    ∃ fault, e = .malformed n (String.ofList (trim raw)) fault := by
  unfold readLine at h
  dsimp only at h
  split at h
  · cases h
  · split at h
    · cases h
    · next fault hread =>
      cases h
      exact ⟨fault, rfl⟩

theorem exists_readLine_eq_malformed_iff {n : Nat} {raw : List Char} (hn : '\n' ∉ raw) :
    (∃ fault, readLine n raw = .error (.malformed n (String.ofList (trim raw)) fault)) ↔
      ¬ Vacant raw ∧ ∀ record : Record, ¬ record.SpelledBy (trim raw) := by
  simp only [← readLine_eq_ok_none_iff (n := n), ← readLine_eq_ok_some_iff (n := n) hn]
  constructor
  · rintro ⟨fault, h⟩
    rw [h]
    exact ⟨nofun, nofun⟩
  · rintro ⟨hnone, hsome⟩
    cases h : readLine n raw with
    | error e =>
      obtain ⟨fault, rfl⟩ := exists_malformed_of_readLine h
      exact ⟨fault, rfl⟩
    | ok record? =>
      cases record? with
      | none => exact absurd h hnone
      | some record => exact absurd h (hsome record)

/-- **One line.** A line that is vacant holds no record. Any other line is read as the record that
it spells without the blanks at either end, of which there is at most one; if it spells none, it is
an error that quotes it. -/
theorem readLine_cases (n : Nat) {raw : List Char} (hn : '\n' ∉ raw) :
    (readLine n raw = .ok none ↔ Vacant raw) ∧
    (∀ record, readLine n raw = .ok (some record) ↔ record.SpelledBy (trim raw)) ∧
    ((∃ fault, readLine n raw = .error (.malformed n (String.ofList (trim raw)) fault)) ↔
      ¬ Vacant raw ∧ ∀ record : Record, ¬ record.SpelledBy (trim raw)) ∧
    (∀ record record' : Record, record.SpelledBy (trim raw) → record'.SpelledBy (trim raw) →
      record = record') := by
  refine ⟨readLine_eq_ok_none_iff, fun _ => readLine_eq_ok_some_iff hn,
    exists_readLine_eq_malformed_iff hn, fun record record' h h' => ?_⟩
  have hread := (readLine_eq_ok_some_iff (n := n) hn).2 h
  rw [(readLine_eq_ok_some_iff hn).2 h', Except.ok.injEq, Option.some.injEq] at hread
  exact hread.symm

/-- A mutex record with a tab before it, no blanks around its colon, and a no-break space behind. -/
def looseLine : List Char := "\tmutex A  B:C D\u00a0".toList

theorem readLine_cases_looseLine : '\n' ∉ looseLine ∧
    readLine 7 looseLine = .ok (some (.mutex [("A", "B"), ("C", "D")])) ∧
      (Record.mutex [("A", "B"), ("C", "D")]).SpelledBy (trim looseLine) ∧
        ∀ record : Record, record.SpelledBy (trim looseLine) →
          record = .mutex [("A", "B"), ("C", "D")] := by
  have hn : '\n' ∉ looseLine := by decide
  have hread : readLine 7 looseLine = .ok (some (.mutex [("A", "B"), ("C", "D")])) := by
    decide +kernel
  obtain ⟨-, hsome, -, hunique⟩ := readLine_cases 7 hn
  have hspelled := (hsome _).1 hread
  exact ⟨hn, hread, hspelled, fun record h => hunique record _ h hspelled⟩

/-- The run: the reader lists the records of the lines. -/
theorem readLines_eq_ok_iff {n : Nat} {ls : List (List Char)} {records : List LineRecord}
    (hn : ∀ l ∈ ls, '\n' ∉ l) : readLines n ls = .ok records ↔ Listing n ls records := by
  induction ls generalizing n records with
  | nil =>
    unfold readLines
    rw [Except.ok.injEq]
    constructor
    · rintro rfl
      exact .nil
    · rintro ⟨⟩
      rfl
  | cons raw rest ih =>
    obtain ⟨hraw, hrest⟩ := List.forall_mem_cons.1 hn
    unfold readLines
    simp only [bind_eq_ok_iff, ih hrest]
    constructor
    · intro h
      obtain ⟨record?, hread, records, hrecords, hout⟩ := h
      cases record? with
      | none =>
        cases hout
        exact .vacant (readLine_eq_ok_none_iff.1 hread) hrecords
      | some record =>
        cases hout
        exact .record ((readLine_eq_ok_some_iff hraw).1 hread) hrecords
    · rintro (_ | ⟨hvacant, hrecords⟩ | ⟨hspelled, hrecords⟩)
      · exact ⟨none, readLine_eq_ok_none_iff.2 hvacant, _, hrecords, rfl⟩
      · exact ⟨_, (readLine_eq_ok_some_iff hraw).2 hspelled, _, hrecords, rfl⟩

/-- **Reading.** A text is read as the records that it describes. -/
theorem readRecords_eq_ok_iff {text : String} {records : List LineRecord} :
    readRecords text = .ok records ↔ Describes text records :=
  readLines_eq_ok_iff newline_notMem_lines

end TrackPlan
