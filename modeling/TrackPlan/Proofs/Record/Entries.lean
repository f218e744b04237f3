import TrackPlan.Proofs.Outcome
import TrackPlan.Proofs.Record.Grammar

/-!
# Entries of a mutex record

A mutex record is read by splitting it at its colons and trimming the parts, while its grammar has
pairs of names with colons between them. `forall₂_splitAt_iff` says that this is the same.
-/

namespace TrackPlan

open Text

namespace Piece

variable {e : String × String} {rest edges : List (String × String)} {t u body : List Char}

/-- A text that begins and ends like bare ones is bare. -/
theorem bare_append {t' : List Char} (h : Bare t) (hne : t ≠ []) (h' : Bare t') (hne' : t' ≠ [])
    (x : List Char) : Bare (t ++ (x ++ t')) := by
  refine ⟨fun c hc => h.1 c ?_, fun c hc => h'.2 c ?_⟩
  · rwa [List.head?_append_of_ne_nil _ hne] at hc
  · rwa [← List.append_assoc, List.getLast?_append_of_ne_nil _ hne'] at hc

theorem bare_of_spelled_word {s : String} (h : (word s).Spelled t) : Bare t := by
  refine ⟨fun c hc => ?_, fun c hc => ?_⟩
  · exact isBlank_eq_false_of_isWordChar (h.2.2 c (List.mem_of_head? hc))
  · exact isBlank_eq_false_of_isWordChar (h.2.2 c (List.mem_of_getLast? hc))

theorem spells_pair_iff : Spells (pair e) t ↔ ∃ src blank dest, t = src ++ (blank ++ dest) ∧
    (word e.1).Spelled src ∧ gap.Spelled blank ∧ (word e.2).Spelled dest := by
  unfold pair
  simp only [Spells]
  constructor
  · intro h
    obtain ⟨src, _, rfl, hsrc, blank, _, rfl, hblank, dest, _, rfl, hdest, rfl⟩ := h
    exact ⟨src, blank, dest, by simp, hsrc, hblank, hdest⟩
  · intro h
    obtain ⟨src, blank, dest, rfl, hsrc, hblank, hdest⟩ := h
    exact ⟨src, _, rfl, hsrc, blank, dest, rfl, hblank, dest, [], by simp, hdest, rfl⟩

/-- A pair begins and ends with a name, and holds no colon. -/
theorem bare_of_spells_pair (h : Spells (pair e) t) : Bare t ∧ t ≠ [] ∧ ':' ∉ t := by
  obtain ⟨src, blank, dest, rfl, hsrc, hblank, hdest⟩ := spells_pair_iff.1 h
  have hword : ∀ {s w}, (word s).Spelled w → ':' ∉ w := fun hw hc =>
    absurd (hw.2.2 ':' hc) (by decide)
  refine ⟨?_, by simp [hsrc.2.1], fun hc => ?_⟩
  · exact bare_append (bare_of_spelled_word hsrc) hsrc.2.1 (bare_of_spelled_word hdest)
      hdest.2.1 blank
  · rw [List.mem_append, List.mem_append] at hc
    rcases hc with hc | hc | hc
    · exact hword hsrc hc
    · exact absurd (hblank.2 ':' hc) (by decide)
    · exact hword hdest hc

theorem spells_mark_iff {m : String} : Spells (mark m) u ↔
    ∃ b a, u = b ++ (m.toList ++ a) ∧ AllBlank b ∧ AllBlank a := by
  simp only [mark, marks, List.cons_append, List.nil_append, Spells]
  constructor
  · intro h
    obtain ⟨b, _, rfl, hb, m, _, rfl, rfl, a, _, rfl, ha, rfl⟩ := h
    exact ⟨b, a, by simp, hb, ha⟩
  · intro h
    obtain ⟨b, a, rfl, hb, ha⟩ := h
    exact ⟨b, _, rfl, hb, _, a, rfl, rfl, a, [], by simp, ha, rfl⟩

theorem spells_pairs_cons {e' : String × String} : Spells (pairs (e :: e' :: rest)) t ↔
    ∃ front b a back, t = front ++ (b ++ ':' :: (a ++ back)) ∧ Spells (pair e) front ∧
      AllBlank b ∧ AllBlank a ∧ Spells (pairs (e' :: rest)) back := by
  have hpairs : pairs (e :: e' :: rest) = pair e ++ (mark ":" ++ pairs (e' :: rest)) := rfl
  simp only [hpairs, spells_append, spells_mark_iff]
  constructor
  · intro h
    obtain ⟨front, _, rfl, hfront, _, back, rfl, ⟨b, a, rfl, hb, ha⟩, hback⟩ := h
    exact ⟨front, b, a, back, by simp, hfront, hb, ha, hback⟩
  · intro h
    obtain ⟨front, b, a, back, rfl, hfront, hb, ha, hback⟩ := h
    exact ⟨front, _, rfl, hfront, b ++ (":".toList ++ a), back, by simp, ⟨b, a, rfl, hb, ha⟩, hback⟩

theorem bare_of_spells_pairs (h : Spells (pairs (e :: rest)) t) : Bare t ∧ t ≠ [] := by
  induction rest generalizing e t with
  | nil => exact (bare_of_spells_pair h).imp_right And.left
  | cons e' rest ih =>
    obtain ⟨front, b, a, back, rfl, hfront, -, -, hback⟩ := spells_pairs_cons.1 h
    obtain ⟨hbare, hne, -⟩ := bare_of_spells_pair hfront
    obtain ⟨hbare', hne'⟩ := ih hback
    refine ⟨?_, by simp [hne]⟩
    have := bare_append hbare hne hbare' hne' (b ++ ':' :: a)
    rwa [List.append_assoc, List.cons_append] at this

theorem notMem_of_allBlank (h : AllBlank t) : ':' ∉ t := fun hc => absurd (h ':' hc) (by decide)

/-- A part is a pair of names if it holds no colon and is one when it is trimmed. -/
theorem colon_notMem_of_spells_trim (h : Spells (pair e) (trim body)) : ':' ∉ body := by
  obtain ⟨-, a, b, hbody, ha, hb⟩ := trim_eq_iff.1 (rfl : trim body = trim body)
  rw [hbody]
  simp [notMem_of_allBlank ha, notMem_of_allBlank hb, (bare_of_spells_pair h).2.2]

/-- Trimming around a colon: both sides are trimmed, and the blanks beside the colon stay. -/
theorem spells_pairs_trim_iff {e' : String × String} {front back : List Char}
    (hfront : ':' ∉ front) : Spells (pairs (e :: e' :: rest)) (trim (front ++ ':' :: back)) ↔
      Spells (pair e) (trim front) ∧ Spells (pairs (e' :: rest)) (trim back) := by
  constructor
  · intro h
    obtain ⟨-, x, y, hbody, hx, hy⟩ :=
      trim_eq_iff.1 (rfl : trim (front ++ ':' :: back) = trim (front ++ ':' :: back))
    obtain ⟨t, b, a, t', ht, hpair, hb, ha, hpairs⟩ := spells_pairs_cons.1 h
    obtain ⟨hbare, -, hcolon⟩ := bare_of_spells_pair hpair
    have hnot : ':' ∉ x ++ (t ++ b) := by
      simp [notMem_of_allBlank hx, notMem_of_allBlank hb, hcolon]
    have hsplit : front ++ ':' :: back = (x ++ (t ++ b)) ++ ':' :: (a ++ (t' ++ y)) := by
      rw [hbody, ht]
      simp
    -- both sides have one first colon
    have hparts := congrArg (splitAt ':') hsplit
    rw [splitAt_append hfront, splitAt_append hnot, List.cons.injEq] at hparts
    obtain ⟨rfl, -⟩ := hparts
    obtain rfl : back = a ++ (t' ++ y) := (List.cons.inj (List.append_cancel_left hsplit)).2
    rw [trim_eq_iff.2 ⟨hbare, x, b, rfl, hx, hb⟩,
      trim_eq_iff.2 ⟨(bare_of_spells_pairs hpairs).1, a, y, rfl, ha, hy⟩]
    exact ⟨hpair, hpairs⟩
  · intro hs
    obtain ⟨hpair, hpairs⟩ := hs
    obtain ⟨-, a, b, hf, ha, hb⟩ := trim_eq_iff.1 (rfl : trim front = trim front)
    obtain ⟨-, a', b', hk, ha', hb'⟩ := trim_eq_iff.1 (rfl : trim back = trim back)
    obtain ⟨hbare, hne, -⟩ := bare_of_spells_pair hpair
    obtain ⟨hbare', hne'⟩ := bare_of_spells_pairs hpairs
    have htrim : trim (front ++ ':' :: back) = trim front ++ (b ++ ':' :: (a' ++ trim back)) := by
      refine trim_eq_iff.2 ⟨?_, a, b', ?_, ha, hb'⟩
      · have := bare_append hbare hne hbare' hne' (b ++ ':' :: a')
        rwa [List.append_assoc, List.cons_append] at this
      · conv_lhs => rw [hf, hk]
        simp
    rw [htrim]
    exact spells_pairs_cons.2 ⟨_, b, a', _, rfl, hpair, hb, ha', hpairs⟩

/-- Splitting at the colons and trimming the parts. -/
theorem forall₂_splitAt_iff :
    List.Forall₂ (fun part e => Spells (pair e) (trim part)) (splitAt ':' body) edges ↔
      edges ≠ [] ∧ Spells (pairs edges) (trim body) := by
  induction edges generalizing body with
  | nil =>
    rw [List.forall₂_nil_right_iff]
    exact iff_of_false (splitAt_ne_nil ':' body) fun h => h.1 rfl
  | cons e rest ih =>
    rcases splitAt_cases ':' body with hbody | ⟨front, back, rfl, hfront⟩
    · rw [splitAt_of_notMem hbody, List.forall₂_cons, List.forall₂_nil_left_iff]
      cases rest with
      | nil => simp [pairs]
      | cons e' rest =>
        apply iff_of_false (by simp)
        rintro ⟨-, h⟩
        obtain ⟨front, b, a, back, ht, -⟩ := spells_pairs_cons.1 h
        refine hbody (mem_of_mem_trim ?_)
        rw [ht]
        simp
    · rw [splitAt_append hfront, List.forall₂_cons, ih]
      cases rest with
      | nil =>
        apply iff_of_false (by simp)
        rintro ⟨-, h⟩
        exact colon_notMem_of_spells_trim h (by simp)
      | cons e' rest => simp [spells_pairs_trim_iff hfront]

end Piece

end TrackPlan
