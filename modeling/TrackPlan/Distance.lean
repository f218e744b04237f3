import TrackPlan.Graph.Basic
import TrackPlan.Registry
import TrackPlan.Report

/-!
# Distances

A distance record names an edge by its two nodes, and speaks for the reverse edge too. The records
are first gathered in a table over pairs of nodes, in which a later record replaces an earlier one;
then each entry goes to the edge between its nodes.
-/

namespace TrackPlan

/-- What is known about the distance between two nodes. -/
structure DistanceEntry where
  millimeters : UInt32
  /-- The line of the record it comes from. -/
  line : Nat
  /-- Whether it speaks for the reverse direction of the record. -/
  implied : Bool
  deriving DecidableEq, Repr

/-- Distances of directed pairs of nodes; no pair is listed twice. -/
abbrev DistanceTable := List ((Nat × Nat) × DistanceEntry)

namespace DistanceTable

/-- The table with the given entry for the pair, in place of any other. -/
def insert (t : DistanceTable) (pair : Nat × Nat) (entry : DistanceEntry) : DistanceTable :=
  t.filter (fun e => e.1 != pair) ++ [(pair, entry)]

theorem lookup_insert (t : DistanceTable) (p q : Nat × Nat) (entry : DistanceEntry) :
    (t.insert p entry).lookup q = if q = p then some entry else t.lookup q := by
  unfold insert
  induction t with
  | nil =>
    by_cases hq : q = p
    · simp [hq]
    · simp [List.lookup_cons, hq, beq_false_of_ne hq]
  | cons e rest ih =>
    obtain ⟨k, x⟩ := e
    by_cases hk : k = p
    · subst hk
      by_cases hq : q = k
      · simpa [hq] using ih
      · simpa [hq, List.lookup_cons, beq_false_of_ne hq] using ih
    · by_cases hq : q = k
      · subst hq
        simp [hk]
      · simpa [hk, List.lookup_cons, beq_false_of_ne hq] using ih

/-- The table of a list of entries, of which a later one replaces an earlier one. -/
def ofEntries (entries : List ((Nat × Nat) × DistanceEntry)) : DistanceTable :=
  entries.foldl (fun t e => t.insert e.1 e.2) []

/-- The warning for an entry that replaces one of another line with another distance. -/
def redeclared (t : DistanceTable) (d : DistanceDecl) (pair : Nat × Nat) : List Warning :=
  match t.lookup pair with
  | some previous =>
    if previous.millimeters ≠ d.millimeters ∧ previous.line ≠ d.line then
      [.distanceRedeclared d.src d.dest previous.millimeters d.line]
    else []
  | none => []

/-- Inserts one of the two entries of a record. -/
def declare (t : DistanceTable) (d : DistanceDecl) (pair : Nat × Nat) (implied : Bool) :
    Report DistanceTable := do
  Report.warn (t.redeclared d pair)
  return t.insert pair ⟨d.millimeters, d.line, implied⟩

end DistanceTable

/-- The position and the declaration of a name, which must be both declared and placed. -/
def Registry.locate (r : Registry) (places : List (String × Nat)) (line : Nat) (name : String) :
    Except CompileError (Nat × Decl) :=
  match places.lookup name, r.decl? name with
  | some position, some d => .ok (position, d)
  | _, _ => .error (.unknownName line name)

/-- The pair a distance record names, and the pair it implies: the reverse nodes in the opposite
order. A pair of nodes that are each other's reverse would imply itself; if there is an edge back,
the record implies that one instead. -/
def Registry.coveredPairs (r : Registry) (places : List (String × Nat)) (d : DistanceDecl) :
    Except CompileError ((Nat × Nat) × (Nat × Nat)) := do
  let (src, srcDecl) ← r.locate places d.line d.src
  let (dest, destDecl) ← r.locate places d.line d.dest
  let (reverseSrc, _) ← r.locate places d.line destDecl.reverse
  let (reverseDest, _) ← r.locate places d.line srcDecl.reverse
  let declared := (src, dest)
  let reversed := (reverseSrc, reverseDest)
  if reversed = declared ∧ d.src ∈ destDecl.kind.successors then
    return (declared, (dest, src))
  return (declared, reversed)

/-- Gathers distance records in a table. -/
def Registry.gatherDistances (r : Registry) (places : List (String × Nat)) :
    DistanceTable → List DistanceDecl → Report DistanceTable
  | t, [] => pure t
  | t, d :: rest => do
    let (declared, implied) ← Report.ofExcept (r.coveredPairs places d)
    let t ← t.declare d declared false
    let t ← t.declare d implied true
    r.gatherDistances places t rest

/-- The table of all distance records. -/
def Registry.distanceTable (r : Registry) (places : List (String × Nat)) : Report DistanceTable :=
  r.gatherDistances places [] r.distances

/-- The order in which entries go to edges: by line, declared before implied, then by nodes. -/
def DistanceEntry.before (a b : (Nat × Nat) × DistanceEntry) : Bool :=
  if a.2.line ≠ b.2.line then a.2.line < b.2.line
  else if a.2.implied ≠ b.2.implied then b.2.implied
  else if a.1.1 ≠ b.1.1 then a.1.1 < b.1.1
  else a.1.2 ≤ b.1.2

namespace Graph

/-- The graph with another distance for one edge. -/
def setDistance (g : Graph) (edge : Nat) (millimeters : UInt32) : Graph :=
  { g with edges := g.edges.modify edge fun e => { e with distance := millimeters } }

/-- Gives each entry to its edge, in order, up to the first entry that has none: the graph, the
edges that got a distance, and the error of that entry. -/
def measure (g : Graph) : List ((Nat × Nat) × DistanceEntry) →
    Graph × List Nat × Except CompileError Unit
  | [] => (g, [], .ok ())
  | ((src, dest), entry) :: rest =>
    match g.edgeBetween? src dest with
    | none => (g, [], .error (.orphanDistance entry.line (g.nameOf src) (g.nameOf dest)))
    | some edge =>
      let (g', measured, outcome) := (g.setDistance edge entry.millimeters).measure rest
      (g', edge :: measured, outcome)

/-- What is said of the edges without a distance: the first is an error if distances are required,
else each gets a warning. -/
def judgeUnmeasured (g : Graph) (measured : List Nat) (required : Bool) : Report Unit :=
  let unmeasured := g.edges.toList.filter fun e => !measured.contains e.id
  if required then
    match unmeasured with
    | [] => pure ()
    | e :: _ => .fail (.missingDistance (g.nameOf e.src) (g.nameOf e.dest))
  else .warn (unmeasured.map fun e => .noDistance (g.nameOf e.src) (g.nameOf e.dest))

/-- Gives every entry of a table to the edge between its nodes: the graph afterwards, also after a
failure, and the report. -/
def attach (g : Graph) (t : DistanceTable) (required : Bool) : Graph × Report Unit :=
  let (g', measured, outcome) := g.measure (t.mergeSort DistanceEntry.before)
  (g', do Report.ofExcept outcome; g'.judgeUnmeasured measured required)

end Graph

end TrackPlan
