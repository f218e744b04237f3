import Mathlib.Data.List.Forall2
import TrackPlan.Report

/-!
# Computations that may fail

When a step after a step succeeds, and when a step succeeds on every element of a list; and where
the error of such a computation comes from.
-/

namespace TrackPlan

variable {ε α β : Type}

theorem bind_eq_ok_iff {x : Except ε α} {f : α → Except ε β} {b : β} :
    (x >>= f) = .ok b ↔ ∃ a, x = .ok a ∧ f a = .ok b := by
  cases x with
  | error e => simp [bind, Except.bind]
  | ok a => simp [bind, Except.bind]

theorem map_eq_ok_iff {x : Except ε α} {f : α → β} {b : β} :
    f <$> x = .ok b ↔ ∃ a, x = .ok a ∧ f a = b := by
  cases x with
  | error e => simp [Functor.map, Except.map]
  | ok a => simp [Functor.map, Except.map]

theorem exists_map_eq_ok_iff {x : Except ε α} {f : α → β} :
    (∃ b, f <$> x = .ok b) ↔ ∃ a, x = .ok a := by
  simp only [map_eq_ok_iff]
  exact ⟨fun ⟨_, a, ha, _⟩ => ⟨a, ha⟩, fun ⟨a, ha⟩ => ⟨f a, a, ha, rfl⟩⟩

theorem mapError_eq_ok_iff {ε' : Type} {x : Except ε α} {f : ε → ε'} {a : α} :
    x.mapError f = .ok a ↔ x = .ok a := by
  cases x <;> simp [Except.mapError]

/-- Something that is known of the result of a step, once the step succeeds. -/
theorem exists_of_toOption_map {x : Except ε α} {f : α → β} {b : β}
    (h : x.toOption.map f = some b) : ∃ a, x = .ok a ∧ f a = b := by
  cases x with
  | error e => simp [Except.toOption] at h
  | ok a => exact ⟨a, rfl, by simpa [Except.toOption] using h⟩

@[simp] theorem pure_eq_ok_iff {a b : α} : (pure a : Except ε α) = .ok b ↔ a = b := by
  simp [pure, Except.pure]

/-- A guard in front of a step. -/
theorem ite_throw_eq_ok {p : Prop} [Decidable p] {e : ε} {x : Except ε α} {a : α} :
    (if p then (do throw e; x) else x) = .ok a ↔ ¬ p ∧ x = .ok a := by
  by_cases h : p
  · simp [h, throw, throwThe, MonadExceptOf.throw, bind, Except.bind]
  · simp [h]

theorem Report.result_bind_eq_ok_iff {x : Report α} {f : α → Report β} {b : β} :
    (x >>= f).result = .ok b ↔ ∃ a, x.result = .ok a ∧ (f a).result = .ok b := by
  rw [Report.result_bind]
  exact bind_eq_ok_iff

theorem Report.result_then_eq_ok_iff {x : Report Unit} {y : Report β} {b : β} :
    (do x; y).result = .ok b ↔ x.result = .ok () ∧ y.result = .ok b := by
  rw [result_bind_eq_ok_iff]
  exact ⟨fun ⟨(), h⟩ => h, fun h => ⟨(), h⟩⟩

theorem Report.result_map_eq_ok_iff {x : Report α} {f : α → β} {b : β} :
    (f <$> x).result = .ok b ↔ ∃ a, x.result = .ok a ∧ f a = b := by
  show (x >>= fun a => pure (f a)).result = .ok b ↔ _
  simp only [result_bind_eq_ok_iff, result_pure, Except.ok.injEq]

instance : LawfulMonad Report :=
  LawfulMonad.mk' Report
    (fun x => by
      obtain ⟨warnings, result⟩ := x
      cases result with
      | error e => rfl
      | ok a => exact congrArg (Report.mk · (.ok a)) (List.append_nil warnings))
    (fun _ _ => rfl)
    (fun x f k => by
      obtain ⟨warnings, result⟩ := x
      cases result with
      | error e => rfl
      | ok a =>
        cases h : (f a).result with
        | error e => simp [bind, h]
        | ok b => simp [bind, h])

theorem mapM_eq_ok_iff {f : α → Except ε β} {l : List α} {l' : List β} :
    l.mapM f = .ok l' ↔ List.Forall₂ (fun a b => f a = .ok b) l l' := by
  induction l generalizing l' with
  | nil => rw [List.mapM_nil, pure_eq_ok_iff, List.forall₂_nil_left_iff, eq_comm]
  | cons a l ih =>
    rw [List.mapM_cons, bind_eq_ok_iff, List.forall₂_cons_left_iff]
    simp only [bind_eq_ok_iff, pure_eq_ok_iff, ih]
    constructor
    · intro h
      obtain ⟨b, hb, u, hu, rfl⟩ := h
      exact ⟨b, u, hb, hu, rfl⟩
    · intro h
      obtain ⟨b, u, hb, hu, rfl⟩ := h
      exact ⟨b, hb, u, hu, rfl⟩

/-- A step succeeds on a list if it succeeds on every element. -/
theorem exists_mapM_eq_ok_iff {f : α → Except ε β} {l : List α} :
    (∃ l', l.mapM f = .ok l') ↔ ∀ a ∈ l, ∃ b, f a = .ok b := by
  simp only [mapM_eq_ok_iff]
  induction l with
  | nil => simp
  | cons a l ih =>
    simp only [List.forall_mem_cons, ← ih, List.forall₂_cons_left_iff]
    constructor
    · intro h
      obtain ⟨_, b, u, hb, hu, rfl⟩ := h
      exact ⟨⟨b, hb⟩, u, hu⟩
    · intro h
      obtain ⟨⟨b, hb⟩, u, hu⟩ := h
      exact ⟨_, b, u, hb, hu, rfl⟩

/-- What a step gives on a list. -/
theorem mem_of_mapM_eq_ok {f : α → Except ε β} {l : List α} {l' : List β}
    (h : l.mapM f = .ok l') {b : β} : b ∈ l' ↔ ∃ a ∈ l, f a = .ok b := by
  rw [mapM_eq_ok_iff] at h
  induction h with
  | nil => simp
  | cons ha _ ih => simp [ha, ih, eq_comm]

/-! ## Where an error comes from -/

theorem bind_eq_error_iff {x : Except ε α} {f : α → Except ε β} {e : ε} :
    (x >>= f) = .error e ↔ x = .error e ∨ ∃ a, x = .ok a ∧ f a = .error e := by
  cases x with
  | error e => simp [bind, Except.bind]
  | ok a => simp [bind, Except.bind]

theorem map_eq_error_iff {x : Except ε α} {f : α → β} {e : ε} :
    f <$> x = .error e ↔ x = .error e := by
  cases x with
  | error e => simp [Functor.map, Except.map]
  | ok a => simp [Functor.map, Except.map]

theorem Report.result_bind_eq_error_iff {x : Report α} {f : α → Report β} {e : CompileError} :
    (x >>= f).result = .error e ↔
      x.result = .error e ∨ ∃ a, x.result = .ok a ∧ (f a).result = .error e := by
  rw [Report.result_bind]
  exact bind_eq_error_iff

theorem Report.result_map_eq_error_iff {x : Report α} {f : α → β} {e : CompileError} :
    (f <$> x).result = .error e ↔ x.result = .error e := by
  show (x >>= fun a => pure (f a)).result = .error e ↔ _
  rw [result_bind_eq_error_iff]
  exact or_iff_left (by simp)

/-- A step that fails on a list fails on one of its elements. -/
theorem exists_of_mapM_eq_error {f : α → Except ε β} {l : List α} {e : ε}
    (h : l.mapM f = .error e) : ∃ a ∈ l, f a = .error e := by
  induction l with
  | nil => simp [pure, Except.pure] at h
  | cons a l ih =>
    rw [List.mapM_cons, bind_eq_error_iff] at h
    rcases h with h | ⟨b, -, h⟩
    · exact ⟨a, List.mem_cons_self, h⟩
    · rcases bind_eq_error_iff.1 h with h | ⟨u, -, h⟩
      · obtain ⟨c, hc, hce⟩ := ih h
        exact ⟨c, List.mem_cons_of_mem a hc, hce⟩
      · cases h

end TrackPlan
