import TrackPlan.Error
import TrackPlan.Node

/-!
# Declared nodes

A registry collects what the records declare, before any name is looked up. Nodes are declared in
pairs: the forward half first, then the backward half. A record that fails at its backward half
leaves the forward half declared, but gives it no place in the layout unless it is a sensor.
-/

namespace TrackPlan

/-- A node as declared; its successors and its reverse are names. -/
structure Decl where
  name : String
  reverse : String
  kind : Kind String
  /-- The line of the record that declares it. -/
  line : Nat
  deriving DecidableEq, Repr

/-- A distance record. -/
structure DistanceDecl where
  src : String
  dest : String
  millimeters : UInt32
  line : Nat
  deriving DecidableEq, Repr

/-- A mutex record: edges that must not be reserved together. -/
structure MutexDecl where
  edges : List (String × String)
  line : Nat
  deriving DecidableEq, Repr

/-- A calibration record: one node of the loop. -/
structure LoopStep where
  node : String
  line : Nat
  deriving DecidableEq, Repr

/-- What the records declare. Nodes are known by their position in `decls`. -/
structure Registry where
  decls : List Decl := []
  /-- The index of the names: where the declaration of each name is. -/
  names : List (String × Nat) := []
  names_eq : names = (decls.map Decl.name).zipIdx := by rfl
  /-- Addresses in ascending order, each with the position of its sensor. -/
  sensors : List (UInt32 × Nat) := []
  switches : List Nat := []
  terminals : List Nat := []
  separators : List Nat := []
  distances : List DistanceDecl := []
  mutexes : List MutexDecl := []
  loop : List LoopStep := []
  deriving DecidableEq, Repr

namespace Registry

/-- Nothing is declared. -/
def empty : Registry := {}

/-- The declaration of a name. -/
def decl? (r : Registry) (name : String) : Option Decl :=
  match r.names.lookup name with
  | some index => r.decls[index]?
  | none => none

/-- One more declaration, which the index finds too. -/
def push (r : Registry) (d : Decl) : Registry :=
  { r with
    decls := r.decls ++ [d]
    names := r.names ++ [(d.name, r.decls.length)]
    names_eq := by simp [r.names_eq, List.zipIdx_append] }

/-- Declares a node under a name that is still free. -/
def declare (r : Registry) (d : Decl) : Except CompileError Registry :=
  if (r.names.lookup d.name).isSome then .error (.duplicateName d.line d.name)
  else .ok (r.push d)

/-- Puts an address in its place among ascending ones. -/
def insertAddress (address : UInt32) (index : Nat) : List (UInt32 × Nat) → List (UInt32 × Nat)
  | [] => [(address, index)]
  | (a, i) :: rest =>
    if address < a then (address, index) :: (a, i) :: rest
    else (a, i) :: insertAddress address index rest

/-- The name of a sensor that has this address. -/
def holder? (r : Registry) (address : UInt32) : Option String :=
  match r.sensors.lookup address with
  | some index => some ((r.decls[index]?.map Decl.name).getD "")
  | none => none

/-- Declares a sensor at an address that is still free. -/
def declareSensor (r : Registry) (half : SensorHalf) (reverse : String) (line : Nat) :
    Except CompileError Registry :=
  match r.holder? half.address with
  | some existing => .error (.duplicateAddress line half.address half.name existing)
  | none => do
    let r' ← r.declare ⟨half.name, reverse, .sensor half.address half.ahead, line⟩
    return { r' with sensors := insertAddress half.address r.decls.length r'.sensors }

/-- Declares two nodes and then lists them. If the second one fails, the first one stays declared
and nothing is listed. -/
def declarePair (r : Registry) (first second : Registry → Except CompileError Registry)
    (list : Registry → Registry) : Registry × Except CompileError Unit :=
  match first r with
  | .error e => (r, .error e)
  | .ok r₁ =>
    match second r₁ with
    | .error e => (r₁, .error e)
    | .ok r₂ => (list r₂, .ok ())

/-- Adds one record: the registry afterwards, and whether all of the record was taken. -/
def add (r : Registry) (entry : LineRecord) : Registry × Except CompileError Unit :=
  let line := entry.line
  let pair := [r.decls.length, r.decls.length + 1]
  match entry.record with
  | .sensors forward backward =>
    r.declarePair (·.declareSensor forward backward.name line)
      (·.declareSensor backward forward.name line) id
  | .separators forward backward =>
    r.declarePair (·.declare ⟨forward.name, backward.name, .separator forward.ahead, line⟩)
      (·.declare ⟨backward.name, forward.name, .separator backward.ahead, line⟩)
      fun r => { r with separators := r.separators ++ pair }
  | .switch branch number straight curved merge ahead =>
    r.declarePair (·.declare ⟨branch, merge, .branch number straight curved, line⟩)
      (·.declare ⟨merge, branch, .merge number ahead, line⟩)
      fun r => { r with switches := r.switches ++ pair }
  | .terminal enter ahead exit =>
    r.declarePair (·.declare ⟨enter, exit, .enter ahead, line⟩)
      (·.declare ⟨exit, enter, .exit, line⟩)
      fun r => { r with terminals := r.terminals ++ pair }
  | .distance src dest millimeters =>
    ({ r with distances := r.distances ++ [⟨src, dest, millimeters, line⟩] }, .ok ())
  | .mutex edges => ({ r with mutexes := r.mutexes ++ [⟨edges, line⟩] }, .ok ())
  | .calibration node => ({ r with loop := r.loop ++ [⟨node, line⟩] }, .ok ())

/-- Adds records in order, up to the first that fails. -/
def addAll (r : Registry) : List LineRecord → Except CompileError Registry
  | [] => .ok r
  | entry :: rest =>
    match r.add entry with
    | (r', .ok ()) => r'.addAll rest
    | (_, .error e) => .error e

/-- The registry of a list of records. -/
def ofRecords (records : List LineRecord) : Except CompileError Registry := empty.addAll records

/-- The places kept for sensors: one for every address up to the highest. -/
def sensorSlots (r : Registry) : Nat :=
  match r.sensors.getLast? with
  | some (address, _) => address.toNat + 1
  | none => 0

/-- The length of the layout. -/
def slotCount (r : Registry) : Nat :=
  r.sensorSlots + r.switches.length + r.terminals.length + r.separators.length

/-- The final order of the nodes: sensors at their addresses with dummies in the gaps, then
switches, then ends of the track, then separators. A declared node is given by its position among
the declarations. -/
def layout (r : Registry) : List (Option Nat) :=
  (List.range r.sensorSlots).map (fun address => r.sensors.lookup (UInt32.ofNat address)) ++
    (r.switches ++ r.terminals ++ r.separators).map some

theorem length_layout (r : Registry) : r.layout.length = r.slotCount := by
  simp [layout, slotCount, Nat.add_assoc]

/-- The declarations in the final order, with `none` for a dummy. -/
def placed (r : Registry) : List (Option Decl) :=
  r.layout.map fun index? => index?.bind fun index => r.decls[index]?

/-- Names of the placed nodes, each with its position in the layout. -/
def places (r : Registry) : List (String × Nat) :=
  r.placed.zipIdx.filterMap fun (decl?, position) => decl?.map fun d => (d.name, position)

end Registry

end TrackPlan
