import TrackPlan.Error

/-!
# Reports

A report is the result of a computation that may fail, together with the warnings it gave on the
way. Warnings given before a failure are kept.
-/

namespace TrackPlan

/-- Something that is allowed but may be a mistake. -/
inductive Warning where
  /-- A later record gives another distance to a pair of nodes; it names the pair as that record
  does, and the distance that is replaced. -/
  | distanceRedeclared (src dest : String) (previous : UInt32) (line : Nat)
  /-- An edge has no distance, so it counts as zero. -/
  | noDistance (src dest : String)
  /-- A mutex group shares edges with earlier ones, and is merged with them. -/
  | mutexOverlap (line groups : Nat)
  deriving DecidableEq, Repr

/-- The warning in words. -/
def Warning.message : Warning → String
  | distanceRedeclared .. => "distance redeclared, keeping the later value"
  | noDistance .. => "no distance declared for edge, using 0mm"
  | mutexOverlap .. => "mutex group overlaps an earlier group, merging"

/-- A result or a failure, and the warnings given on the way. -/
structure Report (α : Type) where
  warnings : List Warning
  result : Except CompileError α

namespace Report

variable {α β : Type}

/-- A report without warnings. -/
def ofExcept (result : Except CompileError α) : Report α := ⟨[], result⟩

/-- A failure without warnings. -/
def fail (e : CompileError) : Report α := ⟨[], .error e⟩

/-- Warnings alone. -/
def warn (warnings : List Warning) : Report Unit := ⟨warnings, .ok ()⟩

instance : Monad Report where
  pure a := ⟨[], .ok a⟩
  bind r f :=
    match r.result with
    | .ok a => ⟨r.warnings ++ (f a).warnings, (f a).result⟩
    | .error e => ⟨r.warnings, .error e⟩

@[simp] theorem warnings_pure (a : α) : (pure a : Report α).warnings = [] := rfl

@[simp] theorem result_pure (a : α) : (pure a : Report α).result = .ok a := rfl

@[simp] theorem result_bind (r : Report α) (f : α → Report β) :
    (r >>= f).result = r.result.bind fun a => (f a).result := by
  cases r with
  | mk warnings result => cases result <;> rfl

@[simp] theorem result_ofExcept (result : Except CompileError α) :
    (ofExcept result).result = result := rfl

@[simp] theorem warnings_ofExcept (result : Except CompileError α) :
    (ofExcept result).warnings = [] := rfl

end Report

end TrackPlan
