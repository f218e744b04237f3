import TrackPlan.Node
import TrackPlan.Proofs.Outcome

/-!
# Kinds whose successors are looked up

`Kind.Related R` holds of two kinds that differ only in how they refer to their successors, `R`
relating the references slot by slot. Rewriting a kind by a function that may fail gives the related
kind, and fails only at a successor.
-/

namespace TrackPlan.Kind

variable {ε ρ σ : Type} {R : ρ → σ → Prop} {k : Kind ρ} {k' : Kind σ}

/-- The same kind, with related successors. -/
inductive Related (R : ρ → σ → Prop) : Kind ρ → Kind σ → Prop
  | sensor {address : UInt32} {a : ρ} {b : σ} (h : R a b) :
    Related R (.sensor address a) (.sensor address b)
  | separator {a : ρ} {b : σ} (h : R a b) : Related R (.separator a) (.separator b)
  | branch {number : UInt32} {a c : ρ} {b d : σ} (hs : R a b) (hc : R c d) :
    Related R (.branch number a c) (.branch number b d)
  | merge {number : UInt32} {a : ρ} {b : σ} (h : R a b) :
    Related R (.merge number a) (.merge number b)
  | enter {a : ρ} {b : σ} (h : R a b) : Related R (.enter a) (.enter b)
  | exit : Related R .exit .exit
  | dummy : Related R .dummy .dummy

theorem isBranch_iff : k.isBranch = true ↔ k.tag = .branch := by
  cases k <;> simp [isBranch, tag]

/-- Only a branch has two slots. -/
theorem eq_branch_of_slot_lt {a b : ρ} {s t : Nat} (hs : k.successors[s]? = some a)
    (ht : k.successors[t]? = some b) (hst : s < t) : t = 1 ∧ ∃ number, k = .branch number a b := by
  have hlt := (List.getElem?_eq_some_iff.1 ht).1
  cases k with
  | branch number straight curved =>
    obtain ⟨rfl, rfl⟩ : s = 0 ∧ t = 1 := by
      simp only [Kind.successors, List.length_cons, List.length_nil] at hlt
      omega
    cases hs
    cases ht
    exact ⟨rfl, number, rfl⟩
  | sensor | separator | merge | enter | exit | dummy =>
    simp only [Kind.successors, List.length_cons, List.length_nil] at hlt
    omega

theorem Related.tag_eq (h : Related R k k') : k'.tag = k.tag := by cases h <;> rfl

theorem Related.address?_eq (h : Related R k k') : k'.address? = k.address? := by cases h <;> rfl

/-- Every successor of the rewritten kind stands for one of the other, and the other way. -/
theorem Related.exists_left (h : Related R k k') {b : σ} (hb : b ∈ k'.successors) :
    ∃ a ∈ k.successors, R a b := by
  cases h <;> grind [Kind.successors]

theorem Related.exists_right (h : Related R k k') {a : ρ} (ha : a ∈ k.successors) :
    ∃ b ∈ k'.successors, R a b := by
  cases h <;> grind [Kind.successors]

theorem traverse_eq_ok_iff {f : ρ → Except ε σ} :
    k.traverse f = .ok k' ↔ Related (fun a b => f a = .ok b) k k' := by
  constructor
  · intro h
    cases k with
    | sensor address a | separator a | merge number a | enter a =>
      obtain ⟨b, hb, rfl⟩ := map_eq_ok_iff.1 h
      constructor
      exact hb
    | branch number s c =>
      obtain ⟨b, hb, h⟩ := bind_eq_ok_iff.1 h
      obtain ⟨d, hd, h⟩ := bind_eq_ok_iff.1 h
      cases pure_eq_ok_iff.1 h
      exact .branch hb hd
    | exit => cases h; exact .exit
    | dummy => cases h; exact .dummy
  · intro h
    cases h with
    | sensor h | separator h | merge h | enter h => exact map_eq_ok_iff.2 ⟨_, h, rfl⟩
    | branch hs hc => exact bind_eq_ok_iff.2 ⟨_, hs, bind_eq_ok_iff.2 ⟨_, hc, rfl⟩⟩
    | exit => rfl
    | dummy => rfl

theorem exists_traverse_eq_ok_iff {f : ρ → Except ε σ} :
    (∃ k', k.traverse f = .ok k') ↔ ∀ a ∈ k.successors, ∃ b, f a = .ok b := by
  simp only [traverse_eq_ok_iff]
  constructor
  · rintro ⟨k', h⟩
    cases h <;> simp [Kind.successors, *]
  · intro h
    cases k <;> simp only [Kind.successors, List.forall_mem_cons, List.not_mem_nil,
      false_imp_iff, implies_true, and_true] at h
    case branch number s c =>
      obtain ⟨⟨b, hb⟩, d, hd⟩ := h
      exact ⟨_, .branch hb hd⟩
    case exit => exact ⟨_, .exit⟩
    case dummy => exact ⟨_, .dummy⟩
    all_goals
      obtain ⟨b, hb⟩ := h
      exact ⟨_, by constructor; exact hb⟩

/-- A rewriting that fails, fails at a successor. -/
theorem exists_of_traverse_eq_error {f : ρ → Except ε σ} {e : ε}
    (h : k.traverse f = .error e) : ∃ a ∈ k.successors, f a = .error e := by
  cases k with
  | sensor address a | separator a | merge number a | enter a =>
    exact ⟨a, List.mem_singleton_self a, map_eq_error_iff.1 h⟩
  | branch number s c =>
    rcases bind_eq_error_iff.1 h with h | ⟨b, -, h⟩
    · exact ⟨s, by simp [successors], h⟩
    · rcases bind_eq_error_iff.1 h with h | ⟨d, -, h⟩
      · exact ⟨c, by simp [successors], h⟩
      · cases h
  | exit => cases h
  | dummy => cases h

end TrackPlan.Kind
