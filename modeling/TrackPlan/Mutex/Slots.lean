import TrackPlan.Mutex.Closure
import TrackPlan.Registry
import TrackPlan.Report

/-!
# Merging in slots

The closed set of each mutex record goes to a slot of its own, unless it shares edges with sets that
have slots: those are merged into the first of their slots, and the others are left empty. Every
edge knows the slot it is in.
-/

namespace TrackPlan

/-- Closed sets of edges, each in its slot. A slot whose set was merged into another is empty. -/
structure MutexSlots where
  sets : List EdgeSet := []
  /-- Edges with their slots. The first entry of an edge counts. -/
  owner : List (Nat × Nat) := []
  deriving DecidableEq, Repr

namespace MutexSlots

/-- The slots that hold edges of the set, in ascending order. -/
def overlapping (m : MutexSlots) (s : EdgeSet) : List Nat :=
  EdgeSet.ofList (s.filterMap fun edge => m.owner.lookup edge)

/-- The set in a slot. -/
def setAt (sets : List EdgeSet) (slot : Nat) : EdgeSet := sets[slot]?.getD []

/-- Empties the listed slots one by one: the given set with all that was in them, and the sets that
are left. -/
def absorb (sets : List EdgeSet) (merged : EdgeSet) : List Nat → EdgeSet × List EdgeSet
  | [] => (merged, sets)
  | slot :: rest => absorb (sets.set slot []) (EdgeSet.union merged (setAt sets slot)) rest

/-- Every edge of the set is in the given slot from now on. -/
def own (owner : List (Nat × Nat)) (slot : Nat) (s : EdgeSet) : List (Nat × Nat) :=
  s.foldl (fun owner edge => (edge, slot) :: owner) owner

/-- Gives the set a slot, or merges all that it overlaps into the first slot of these. -/
def place (m : MutexSlots) (s : EdgeSet) : MutexSlots :=
  match m.overlapping s with
  | [] => ⟨m.sets ++ [s], own m.owner m.sets.length s⟩
  | first :: others =>
    let (merged, left) :=
      absorb (m.sets.set first []) (EdgeSet.union (setAt m.sets first) s) others
    ⟨left.set first merged, own m.owner first merged⟩

/-- The sets that are not empty, in the order of their slots. -/
def live (m : MutexSlots) : List EdgeSet := m.sets.filter (!·.isEmpty)

end MutexSlots

/-- The warning for a set that overlaps earlier groups. -/
def overlapWarnings (line : Nat) : (groups : Nat) → List Warning
  | 0 => []
  | groups => [.mutexOverlap line groups]

namespace Graph

/-- The edges a mutex record names. -/
def mutexSeed (g : Graph) (d : MutexDecl) : Except CompileError EdgeSet :=
  EdgeSet.ofList <$> d.edges.mapM fun (src, dest) => g.edgeFromNames src dest d.line

/-- Closes the edges of each record and gives them a slot, record by record. -/
def mutexSlots (g : Graph) : MutexSlots → List MutexDecl → Report MutexSlots
  | m, [] => pure m
  | m, d :: rest => do
    let s := g.close (← Report.ofExcept (g.mutexSeed d))
    Report.warn (overlapWarnings d.line (m.overlapping s).length)
    g.mutexSlots (m.place s) rest

end Graph

end TrackPlan
