import Mathlib.Order.Monotone.Basic
import TrackPlan.Compile
import TrackPlan.Proofs.Kind

/-!
# New names and new lines

A relabeling gives every name another name and every line another number. It is `Faithful` if names
stay apart and lines stay in order. The modules here show, stage by stage, that a faithful
relabeling of the records relabels what comes out, be it a track, an error or a warning, and changes
nothing else.

`Relabeling.result` and `Relabeling.report` say what that means for the outcome of one step, and
`result_bind` and `report_bind` for the outcome of one step after the other.
-/

namespace TrackPlan

/-- New names and new line numbers. -/
structure Relabeling where
  name : String → String
  line : Nat → Nat

/-- Names stay apart, the empty name of dummies stays empty, and lines stay in order. -/
structure Relabeling.Faithful (ρ : Relabeling) : Prop where
  name_inj : Function.Injective ρ.name
  name_empty : ρ.name "" = ""
  line_strictMono : StrictMono ρ.line

variable (ρ : Relabeling)

/-! ## What is relabeled

Records and all that is made of them: everywhere a name becomes the new name, a line the new line,
and the rest stays. -/

/-- The kind with other references to its successors. -/
def Kind.map {α β : Type} (f : α → β) : Kind α → Kind β
  | .sensor address ahead => .sensor address (f ahead)
  | .separator ahead => .separator (f ahead)
  | .branch number straight curved => .branch number (f straight) (f curved)
  | .merge number ahead => .merge number (f ahead)
  | .enter ahead => .enter (f ahead)
  | .exit => .exit
  | .dummy => .dummy

def SensorHalf.relabel (half : SensorHalf) : SensorHalf :=
  ⟨ρ.name half.name, half.address, ρ.name half.ahead⟩

def SeparatorHalf.relabel (half : SeparatorHalf) : SeparatorHalf :=
  ⟨ρ.name half.name, ρ.name half.ahead⟩

def Record.relabel : Record → Record
  | .sensors forward backward => .sensors (forward.relabel ρ) (backward.relabel ρ)
  | .separators forward backward => .separators (forward.relabel ρ) (backward.relabel ρ)
  | .switch branch number straight curved merge ahead =>
    .switch (ρ.name branch) number (ρ.name straight) (ρ.name curved) (ρ.name merge) (ρ.name ahead)
  | .terminal enter ahead exit => .terminal (ρ.name enter) (ρ.name ahead) (ρ.name exit)
  | .distance src dest millimeters => .distance (ρ.name src) (ρ.name dest) millimeters
  | .mutex edges => .mutex (edges.map fun e => (ρ.name e.1, ρ.name e.2))
  | .calibration node => .calibration (ρ.name node)

def LineRecord.relabel (entry : LineRecord) : LineRecord :=
  ⟨ρ.line entry.line, entry.record.relabel ρ⟩

def Decl.relabel (d : Decl) : Decl :=
  ⟨ρ.name d.name, ρ.name d.reverse, d.kind.map ρ.name, ρ.line d.line⟩

def DistanceDecl.relabel (d : DistanceDecl) : DistanceDecl :=
  ⟨ρ.name d.src, ρ.name d.dest, d.millimeters, ρ.line d.line⟩

def MutexDecl.relabel (d : MutexDecl) : MutexDecl :=
  ⟨d.edges.map fun e => (ρ.name e.1, ρ.name e.2), ρ.line d.line⟩

def LoopStep.relabel (s : LoopStep) : LoopStep := ⟨ρ.name s.node, ρ.line s.line⟩

/-- The positions of names, under new names. -/
def Relabeling.places (places : List (String × Nat)) : List (String × Nat) :=
  places.map fun p => (ρ.name p.1, p.2)

def Registry.relabel (r : Registry) : Registry :=
  { r with
    decls := r.decls.map (Decl.relabel ρ)
    names := ρ.places r.names
    names_eq := by
      rw [Relabeling.places, r.names_eq, List.map_map, List.zipIdx_map, List.zipIdx_map, List.map_map]
      rfl
    distances := r.distances.map (DistanceDecl.relabel ρ)
    mutexes := r.mutexes.map (MutexDecl.relabel ρ)
    loop := r.loop.map (LoopStep.relabel ρ) }

def Node.relabel (n : Node) : Node := { n with name := ρ.name n.name }

def Graph.relabel (g : Graph) : Graph :=
  { g with
    nodes := g.nodes.map (Node.relabel ρ)
    places := ρ.places g.places }

def DistanceEntry.relabel (entry : DistanceEntry) : DistanceEntry :=
  { entry with line := ρ.line entry.line }

def DistanceTable.relabel (t : DistanceTable) : DistanceTable :=
  t.map fun e => (e.1, e.2.relabel ρ)

def Track.relabel (t : Track) : Track := { t with graph := t.graph.relabel ρ }

def LoopFault.relabel : LoopFault → LoopFault
  | .gap src dest => .gap (ρ.name src) (ρ.name dest)
  | .noSensor => .noSensor
  | .other reason => .other reason

def CompileError.relabel : CompileError → CompileError
  | .malformed line content fault => .malformed (ρ.line line) content fault
  | .duplicateName line name => .duplicateName (ρ.line line) (ρ.name name)
  | .duplicateAddress line address name existing =>
    .duplicateAddress (ρ.line line) address (ρ.name name) (ρ.name existing)
  | .unknownName line name => .unknownName (ρ.line line) (ρ.name name)
  | .unknownEdge line src dest => .unknownEdge (ρ.line line) (ρ.name src) (ρ.name dest)
  | .orphanDistance line src dest => .orphanDistance (ρ.line line) (ρ.name src) (ρ.name dest)
  | .missingDistance src dest => .missingDistance (ρ.name src) (ρ.name dest)
  | .strandedEdge src dest reverseSrc reverseDest =>
    .strandedEdge (ρ.name src) (ρ.name dest) (ρ.name reverseSrc) (ρ.name reverseDest)
  | .foreignEdge edge claimed owner => .foreignEdge edge (ρ.name claimed) (ρ.name owner)
  | .asymmetricReverse name got => .asymmetricReverse (ρ.name name) (ρ.name got)
  | .invalidLoop line fault => .invalidLoop (ρ.line line) (fault.relabel ρ)
  | .addressOutOfRange line name address limit =>
    .addressOutOfRange (ρ.line line) (ρ.name name) address limit
  | .tooManyNodes count limit => .tooManyNodes count limit

def Warning.relabel : Warning → Warning
  | .distanceRedeclared src dest previous line =>
    .distanceRedeclared (ρ.name src) (ρ.name dest) previous (ρ.line line)
  | .noDistance src dest => .noDistance (ρ.name src) (ρ.name dest)
  | .mutexOverlap line groups => .mutexOverlap (ρ.line line) groups

namespace Relabeling

variable {ρ} {α β γ δ : Type}

/-- The same outcome, with the error relabeled. -/
def result (ρ : Relabeling) (f : α → β) : Except CompileError α → Except CompileError β
  | .ok a => .ok (f a)
  | .error e => .error (e.relabel ρ)

/-- The same report, with error and warnings relabeled. -/
def report (ρ : Relabeling) (f : α → β) (x : Report α) : Report β :=
  ⟨x.warnings.map (Warning.relabel ρ), ρ.result f x.result⟩

@[simp] theorem result_ok {f : α → β} {a : α} : ρ.result f (.ok a) = .ok (f a) := rfl

/-! ## One step after the other

A step that is relabeled, followed by steps that are, is relabeled as a whole. -/

theorem result_bind {f : α → γ} {h : β → δ} {x : Except CompileError α}
    {x' : Except CompileError γ} {k : α → Except CompileError β} {k' : γ → Except CompileError δ}
    (hx : x' = ρ.result f x) (hk : ∀ a, x = .ok a → k' (f a) = ρ.result h (k a)) :
    x' >>= k' = ρ.result h (x >>= k) := by
  subst hx
  cases x with
  | error e => rfl
  | ok a => exact hk a rfl

theorem result_map {f : α → γ} {h : β → δ} {x : Except CompileError α}
    {x' : Except CompileError γ} {k : α → β} {k' : γ → δ} (hx : x' = ρ.result f x)
    (hk : ∀ a, k' (f a) = h (k a)) : k' <$> x' = ρ.result h (k <$> x) := by
  subst hx
  cases x with
  | error e => rfl
  | ok a => exact congrArg Except.ok (hk a)

theorem report_ofExcept {f : α → β} {x : Except CompileError α} {x' : Except CompileError β}
    (hx : x' = ρ.result f x) : Report.ofExcept x' = ρ.report f (Report.ofExcept x) :=
  congrArg Report.ofExcept hx

theorem report_warn {warnings warnings' : List Warning}
    (h : warnings' = warnings.map (Warning.relabel ρ)) :
    Report.warn warnings' = ρ.report id (Report.warn warnings) :=
  congrArg Report.warn h

theorem report_bind {f : α → γ} {h : β → δ} {x : Report α} {x' : Report γ} {k : α → Report β}
    {k' : γ → Report δ} (hx : x' = ρ.report f x)
    (hk : ∀ a, x.result = .ok a → k' (f a) = ρ.report h (k a)) :
    x' >>= k' = ρ.report h (x >>= k) := by
  subst hx
  obtain ⟨warnings, x⟩ := x
  cases x with
  | error e => rfl
  | ok a =>
    show (⟨warnings.map (Warning.relabel ρ) ++ (k' (f a)).warnings, (k' (f a)).result⟩ :
      Report δ) = ⟨(warnings ++ (k a).warnings).map (Warning.relabel ρ), ρ.result h (k a).result⟩
    rw [hk a rfl, List.map_append]
    rfl

theorem report_map {f : α → γ} {h : β → δ} {x : Report α} {x' : Report γ} {k : α → β} {k' : γ → δ}
    (hx : x' = ρ.report f x) (hk : ∀ a, k' (f a) = h (k a)) : k' <$> x' = ρ.report h (k <$> x) :=
  report_bind hx fun a _ => congrArg pure (hk a)

/-- A step on every element of a list. -/
theorem result_mapM {m : α → γ} {f : β → δ} {step : α → Except CompileError β}
    {step' : γ → Except CompileError δ} {l : List α}
    (hstep : ∀ a ∈ l, step' (m a) = ρ.result f (step a)) :
    (l.map m).mapM step' = ρ.result (List.map f) (l.mapM step) := by
  induction l with
  | nil => rfl
  | cons a l ih =>
    obtain ⟨ha, hl⟩ := List.forall_mem_cons.1 hstep
    rw [List.map_cons, List.mapM_cons, List.mapM_cons]
    exact result_bind ha fun b _ => result_bind (ih hl) fun bs _ => rfl

/-- A step on every successor of a kind. -/
theorem result_traverse {m : α → γ} {step : α → Except CompileError β}
    {step' : γ → Except CompileError β} (hstep : ∀ a, step' (m a) = ρ.result id (step a))
    (k : Kind α) : (k.map m).traverse step' = ρ.result id (k.traverse step) := by
  cases k with
  | sensor address ahead | separator ahead | merge number ahead | enter ahead =>
    exact result_map (hstep ahead) fun _ => rfl
  | branch number straight curved =>
    exact result_bind (hstep straight) fun _ _ => result_bind (hstep curved) fun _ _ => rfl
  | exit => rfl
  | dummy => rfl

end Relabeling

/-! ## Look-ups -/

namespace Kind

variable {α β : Type} {f : α → β} {k : Kind α}

@[simp] theorem tag_map : (k.map f).tag = k.tag := by cases k <;> rfl

@[simp] theorem successors_map : (k.map f).successors = k.successors.map f := by cases k <;> rfl

end Kind

namespace Relabeling.Faithful

variable {ρ}

theorem name_beq (h : ρ.Faithful) (a b : String) : (ρ.name a == ρ.name b) = (a == b) := by
  rw [Bool.eq_iff_iff, beq_iff_eq, beq_iff_eq]
  exact h.name_inj.eq_iff

theorem lookup_places (h : ρ.Faithful) (l : List (String × Nat)) (s : String) :
    (ρ.places l).lookup (ρ.name s) = l.lookup s := by
  unfold places
  induction l with
  | nil => rfl
  | cons p rest ih =>
    rw [List.map_cons, List.lookup_cons, List.lookup_cons, h.name_beq, ih]

end Relabeling.Faithful

end TrackPlan
