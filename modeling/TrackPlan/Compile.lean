import TrackPlan.Calibration
import TrackPlan.Graph.Check
import TrackPlan.Graph.Link
import TrackPlan.Mutex.Table
import TrackPlan.Record.Reader

/-!
# Compiling a track description

A description is read, its nodes are declared and linked, the graph is checked, and then the mutex
groups and the calibration loop are worked out on it.
-/

namespace TrackPlan

/-- A compiled track. -/
structure Track where
  graph : Graph
  mutexes : MutexTable
  loop : Option Loop
  deriving DecidableEq, Repr

/-- Compiles a registry. -/
def Registry.compile (r : Registry) (o : Options) : Report Track := do
  let g ← r.link o
  Report.ofExcept g.check
  let mutexes ← MutexTable.build g r.mutexes
  let loop ← Report.ofExcept (Calibration.extract g r.loop)
  return ⟨g, mutexes, loop⟩

/-- Compiles a list of records. -/
def compileRecords (records : List LineRecord) (o : Options) : Report Track := do
  let r ← Report.ofExcept (Registry.ofRecords records)
  r.compile o

/-- Compiles a track description. -/
def compile (text : String) (o : Options) : Report Track := do
  let records ← Report.ofExcept (readRecords text)
  compileRecords records o

/-- Compiles descriptions one by one, each under its name. -/
def compileAll (inputs : List (String × String)) (o : Options) :
    List (String × Except CompileError Track) :=
  inputs.map fun (name, text) => (name, (compile text o).result)

end TrackPlan
