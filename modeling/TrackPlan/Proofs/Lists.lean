import Mathlib.Data.List.Nodup
import Mathlib.Data.List.Rotate
import Mathlib.Data.List.Sort

/-!
# Lists

Positions in a list with one more element, look-ups in a list of pairs and in an ascending list, the
run at the front of a list, and lists that agree element by element.
-/

namespace TrackPlan

variable {α β : Type}

/-- What stands at a position of a list with one more element. -/
theorem getElem?_concat_eq_some_iff {l : List α} {a b : α} {i : Nat} :
    (l ++ [a])[i]? = some b ↔ l[i]? = some b ∨ i = l.length ∧ a = b := by
  rcases Nat.lt_trichotomy i l.length with hi | rfl | hi
  · rw [List.getElem?_append_left hi]
    simp [Nat.ne_of_lt hi]
  · rw [List.getElem?_concat_length, List.getElem?_eq_none (Nat.le_refl _)]
    simp
  · rw [List.getElem?_eq_none (by simpa using Nat.succ_le_of_lt hi),
      List.getElem?_eq_none (Nat.le_of_lt hi)]
    simp [Nat.ne_of_gt hi]

/-- What stands somewhere in a list stands at its head or in its tail. -/
theorem exists_getElem?_cons_iff {a : α} {l : List α} {P : Nat → α → Prop} :
    (∃ i b, (a :: l)[i]? = some b ∧ P i b) ↔ P 0 a ∨ ∃ i b, l[i]? = some b ∧ P (i + 1) b := by
  constructor
  · rintro ⟨i, b, hb, h⟩
    cases i with
    | zero =>
      cases hb
      exact Or.inl h
    | succ i => exact Or.inr ⟨i, b, hb, h⟩
  · rintro (h | ⟨i, b, hb, h⟩)
    · exact ⟨0, a, rfl, h⟩
    · exact ⟨i + 1, b, hb, h⟩

/-- If no key has two values, a look-up finds every entry. -/
theorem lookup_eq_some_iff_mem [BEq α] [LawfulBEq α] {l : List (α × β)}
    (h : ∀ a b c, (a, b) ∈ l → (a, c) ∈ l → b = c) {a : α} {b : β} :
    l.lookup a = some b ↔ (a, b) ∈ l := by
  have hmem : ∀ c, l.lookup a = some c → (a, c) ∈ l := by
    intro c hc
    obtain ⟨l₁, l₂, rfl, -⟩ := List.lookup_eq_some_iff.1 hc
    simp
  refine ⟨hmem b, fun hb => ?_⟩
  cases hl : l.lookup a with
  | none => simpa using List.lookup_eq_none_iff.1 hl _ hb
  | some c => rw [h a b c hb (hmem c hl)]

theorem lookup_eq_some_of_mem [BEq α] [LawfulBEq α] {l : List (α × β)} (h : (l.map Prod.fst).Nodup)
    {a : α} {b : β} (hab : (a, b) ∈ l) : l.lookup a = some b :=
  (lookup_eq_some_iff_mem fun _ _ _ hb hc =>
    congrArg Prod.snd (List.inj_on_of_nodup_map h hb hc rfl)).2 hab

/-- The order of the entries is of no account for a look-up if every key has one entry. -/
theorem lookup_eq_of_perm [BEq α] [LawfulBEq α] {l l' : List (α × β)} (hp : l.Perm l')
    (h : (l.map Prod.fst).Nodup) (a : α) : l.lookup a = l'.lookup a := by
  have hone : ∀ (a : α) (b c : β), (a, b) ∈ l → (a, c) ∈ l → b = c := fun a b c hb hc =>
    congrArg Prod.snd (List.inj_on_of_nodup_map h hb hc rfl)
  have hone' : ∀ (a : α) (b c : β), (a, b) ∈ l' → (a, c) ∈ l' → b = c := fun a b c hb hc =>
    hone a b c (hp.mem_iff.2 hb) (hp.mem_iff.2 hc)
  ext b
  rw [lookup_eq_some_iff_mem hone, lookup_eq_some_iff_mem hone', hp.mem_iff]

/-- In a numbered list, a look-up finds the first place of the key. -/
theorem lookup_zipIdx [BEq α] [LawfulBEq α] (l : List α) (a : α) (k : Nat) :
    (l.zipIdx k).lookup a = (l.findIdx? (· == a)).map (· + k) := by
  induction l generalizing k with
  | nil => rfl
  | cons b l ih =>
    rw [List.zipIdx_cons, List.lookup_cons, List.findIdx?_cons, ih]
    by_cases h : b = a
    · simp [h]
    · have h' : (a == b) = false := beq_eq_false_iff_ne.2 (Ne.symm h)
      simp [h, h', Function.comp_def, Nat.add_assoc, Nat.add_comm 1]

/-- What is found in an ascending list comes before everything else that could have been found. -/
theorem find?_least {R : α → α → Prop} {p : α → Bool} {l : List α} (h : l.Pairwise R) {a b : α}
    (ha : l.find? p = some a) (hb : b ∈ l) (hpb : p b = true) : b = a ∨ R a b := by
  obtain ⟨-, before, after, rfl, hbefore⟩ := List.find?_eq_some_iff_append.1 ha
  rcases List.mem_append.1 hb with hb | hb
  · exact absurd hpb (by simpa using hbefore b hb)
  · rcases List.mem_cons.1 hb with rfl | hb
    · exact Or.inl rfl
    · exact Or.inr ((List.pairwise_cons.1 (List.pairwise_append.1 h).2.1).1 b hb)

/-- In an ascending list, the run at the front holds what is below everything that stops it. -/
theorem mem_takeWhile_iff_of_pairwise {R : α → α → Prop} [Std.Asymm R] {p : α → Bool}
    {l : List α} (h : l.Pairwise R) {a : α} :
    a ∈ l.takeWhile p ↔ a ∈ l ∧ p a = true ∧ ∀ b ∈ l, p b = false → R a b := by
  induction l with
  | nil => simp
  | cons c l ih =>
    obtain ⟨hc, hl⟩ := List.pairwise_cons.1 h
    cases hpc : p c with
    | false =>
      rw [List.takeWhile_cons_of_neg (by simp [hpc])]
      refine iff_of_false List.not_mem_nil fun ⟨hmem, hpa, hbelow⟩ => ?_
      have hac := hbelow c List.mem_cons_self hpc
      rcases List.mem_cons.1 hmem with rfl | hmem
      · rw [hpc] at hpa
        cases hpa
      · exact Std.Asymm.asymm _ _ hac (hc a hmem)
    | true =>
      rw [List.takeWhile_cons_of_pos hpc, List.mem_cons, ih hl, List.mem_cons,
        List.forall_mem_cons]
      constructor
      · rintro (rfl | ⟨hmem, hpa, hbelow⟩)
        · exact ⟨Or.inl rfl, hpc, fun hfalse => absurd hpc (by simp [hfalse]),
            fun b hb _ => hc b hb⟩
        · exact ⟨Or.inr hmem, hpa, fun hfalse => absurd hpc (by simp [hfalse]), hbelow⟩
      · rintro ⟨rfl | hmem, hpa, -, hbelow⟩
        · exact Or.inl rfl
        · exact Or.inr ⟨hmem, hpa, hbelow⟩

/-- The last element of an ascending list is the one that no other is above. -/
theorem getLast?_eq_some_iff_of_pairwise {f : α → Nat} {l : List α} {a : α}
    (h : l.Pairwise fun a b => f a < f b) : l.getLast? = some a ↔ a ∈ l ∧ ∀ b ∈ l, f b ≤ f a := by
  have hlast : ∀ {a}, l.getLast? = some a → ∀ b ∈ l, b = a ∨ f b < f a := by
    intro a ha b hb
    obtain ⟨before, rfl⟩ := List.getLast?_eq_some_iff.1 ha
    rcases List.mem_append.1 hb with hb | hb
    · exact Or.inr ((List.pairwise_append.1 h).2.2 b hb a (List.mem_singleton_self a))
    · exact Or.inl (List.mem_singleton.1 hb)
  constructor
  · intro ha
    refine ⟨List.mem_of_getLast? ha, fun b hb => ?_⟩
    rcases hlast ha b hb with rfl | hlt
    · exact Nat.le_refl _
    · exact Nat.le_of_lt hlt
  · rintro ⟨hmem, hle⟩
    obtain ⟨c, hc⟩ := Option.isSome_iff_exists.1 (List.getLast?_isSome.2 (List.ne_nil_of_mem hmem))
    rcases hlast hc a hmem with rfl | hlt
    · exact hc
    · exact absurd (hle c (List.mem_of_getLast? hc)) (Nat.not_le.2 hlt)

/-- The run at the front of a list, and the rest, which does not go on with it. -/
theorem takeWhile_dropWhile_iff {p : α → Bool} {l run rest : List α} :
    l.takeWhile p = run ∧ l.dropWhile p = rest ↔
      l = run ++ rest ∧ (∀ a ∈ run, p a = true) ∧ ∀ a ∈ rest.head?, p a = false := by
  induction l generalizing run with
  | nil =>
    rw [List.takeWhile_nil, List.dropWhile_nil]
    constructor
    · rintro ⟨rfl, rfl⟩
      simp
    · rintro ⟨h, -⟩
      rw [eq_comm, List.append_eq_nil_iff] at h
      exact ⟨h.1.symm, h.2.symm⟩
  | cons a l ih =>
    by_cases ha : p a = true
    · rw [List.takeWhile_cons_of_pos ha, List.dropWhile_cons_of_pos ha]
      cases run with
      | nil =>
        apply iff_of_false (by simp)
        rintro ⟨rfl, -, hstop⟩
        rw [hstop a rfl] at ha
        cases ha
      | cons b run =>
        rw [List.cons.injEq, and_assoc, ih, List.cons_append, List.cons.injEq, and_assoc]
        refine and_congr_right fun hab => and_congr_right fun _ => ?_
        simp [← hab, ha]
    · rw [List.takeWhile_cons_of_neg ha, List.dropWhile_cons_of_neg ha]
      constructor
      · rintro ⟨rfl, rfl⟩
        simpa using ha
      · rintro ⟨h, hrun, -⟩
        cases run with
        | nil => exact ⟨rfl, h⟩
        | cons b run =>
          rw [List.cons_append, List.cons.injEq] at h
          exact absurd (h.1 ▸ hrun b (by simp)) ha

theorem dropWhile_eq_iff {p : α → Bool} {l rest : List α} : l.dropWhile p = rest ↔
    ∃ run, l = run ++ rest ∧ (∀ a ∈ run, p a = true) ∧ ∀ a ∈ rest.head?, p a = false := by
  simp only [← takeWhile_dropWhile_iff, exists_and_right, exists_eq', true_and]

/-! ## Element by element -/

variable {γ δ : Type} {R : α → β → Prop} {l : List α} {l' : List β}

theorem forall_mem_iff_of_forall₂ {P : α → Prop} {Q : β → Prop} (h : List.Forall₂ R l l')
    (hpq : ∀ a b, R a b → (P a ↔ Q b)) : (∀ a ∈ l, P a) ↔ ∀ b ∈ l', Q b := by
  induction h with
  | nil => simp
  | cons hab _ ih => rw [List.forall_mem_cons, List.forall_mem_cons, hpq _ _ hab, ih]

theorem forall₂_zip_zip {S : γ → δ → Prop} {m : List γ} {m' : List δ} (h : List.Forall₂ R l l')
    (hm : List.Forall₂ S m m') :
    List.Forall₂ (fun p q => R p.1 q.1 ∧ S p.2 q.2) (l.zip m) (l'.zip m') := by
  induction h generalizing m m' with
  | nil => exact .nil
  | cons hab _ ih =>
    cases hm with
    | nil => exact .nil
    | cons hcd hm => exact .cons ⟨hab, hcd⟩ (ih hm)

theorem forall₂_trans {S : β → γ → Prop} {T : α → γ → Prop} {m : List γ} (h : List.Forall₂ R l l')
    (h' : List.Forall₂ S l' m) (ht : ∀ a b c, R a b → S b c → T a c) : List.Forall₂ T l m := by
  induction h generalizing m with
  | nil =>
    cases h'
    exact .nil
  | cons hab _ ih =>
    cases h' with
    | cons hbc h' => exact .cons (ht _ _ _ hab hbc) (ih h')

theorem forall₂_zip {S : α → γ → Prop} {m : List γ} (h : List.Forall₂ R l l')
    (h' : List.Forall₂ S l m) :
    List.Forall₂ (fun a p => R a p.1 ∧ S a p.2) l (l'.zip m) := by
  induction h generalizing m with
  | nil =>
    cases h'
    exact .nil
  | cons hab _ ih =>
    cases h' with
    | cons hac h' => exact .cons ⟨hab, hac⟩ (ih h')

theorem map_eq_map_of_forall₂ {f : α → γ} {f' : β → γ} (h : List.Forall₂ R l l')
    (hf : ∀ a ∈ l, ∀ b, R a b → f a = f' b) : l.map f = l'.map f' := by
  induction h with
  | nil => rfl
  | cons hab _ ih =>
    rw [List.map_cons, List.map_cons, hf _ List.mem_cons_self _ hab,
      ih fun a ha => hf a (List.mem_cons_of_mem _ ha)]

theorem forall₂_rotate_one (h : List.Forall₂ R l l') :
    List.Forall₂ R (l.rotate 1) (l'.rotate 1) := by
  cases h with
  | nil => exact .nil
  | cons hab h =>
    rw [List.rotate_cons_succ, List.rotate_cons_succ, List.rotate_zero, List.rotate_zero]
    exact List.rel_append h (.cons hab .nil)

theorem forall₂_rotate (h : List.Forall₂ R l l') (k : Nat) :
    List.Forall₂ R (l.rotate k) (l'.rotate k) := by
  induction k with
  | zero => simpa using h
  | succ k ih =>
    rw [← List.rotate_rotate, ← List.rotate_rotate]
    exact forall₂_rotate_one ih

theorem zip_rotate {l : List α} {l' : List β} (h : l.length = l'.length) (k : Nat) :
    (l.zip l').rotate k = (l.rotate k).zip (l'.rotate k) :=
  List.zipWith_rotate_distrib Prod.mk l l' k h

theorem mapM_eq_some_of_forall₂ {f : α → Option β}
    (h : List.Forall₂ (fun a b => f a = some b) l l') : l.mapM f = some l' := by
  induction h with
  | nil => rfl
  | cons hab _ ih => rw [List.mapM_cons, hab, ih]; rfl

/-- The second components, beside a list of the same length. -/
theorem forall_mem_zip_snd {P : β → Prop} (h : l.length = l'.length) :
    (∀ p ∈ l.zip l', P p.2) ↔ ∀ b ∈ l', P b := by
  have hmap := List.map_snd_zip (Nat.le_of_eq h.symm)
  rw [← List.forall_mem_map, hmap]

/-! ## Sorting -/

/-- Elements that are inserted one by one come in the order in which they are sorted by merging,
those that rank alike in the order in which they came. -/
theorem mergeSort_eq_insertionSort {le : α → α → Bool}
    (htrans : ∀ a b c, le a b = true → le b c = true → le a c = true)
    (htotal : ∀ a b, (le a b || le b a) = true) (l : List α) :
    l.mergeSort le = l.insertionSort (le · ·) := by
  induction l with
  | nil => simp
  | cons a l ih =>
    obtain ⟨before, after, hcons, hl, hbefore⟩ := List.mergeSort_cons htrans htotal a l
    have hsorted := List.pairwise_mergeSort htrans htotal (a :: l)
    rw [hcons] at hsorted
    have hafter : ∀ b ∈ after, le a b = true :=
      (List.pairwise_cons.1 (List.pairwise_append.1 hsorted).2.1).1
    rw [List.insertionSort_cons, ← ih, hl, hcons]
    clear hcons hl hsorted
    induction before with
    | nil =>
      cases after with
      | nil => rfl
      | cons b after =>
        rw [List.nil_append, List.nil_append, List.orderedInsert_cons,
          if_pos (hafter b List.mem_cons_self)]
    | cons b before ihb =>
      obtain ⟨hb, hrest⟩ := List.forall_mem_cons.1 hbefore
      have hb : ¬ le a b = true := by simpa using hb
      rw [List.cons_append, List.cons_append, List.orderedInsert_cons, if_neg hb, ihb hrest]

end TrackPlan
