import TrackPlan.Example.Layout
import TrackPlan.Example.Ring
import TrackPlan.Host.Desk
import TrackPlan.Main
import TrackPlan.Proofs.Acceptance
import TrackPlan.Proofs.Calibration.Spans
import TrackPlan.Proofs.Failure
import TrackPlan.Proofs.Failure.Orphans
import TrackPlan.Proofs.Formatting
import TrackPlan.Proofs.Graph.Attaching
import TrackPlan.Proofs.Graph.LastDistance
import TrackPlan.Proofs.Graph.Predecessors
import TrackPlan.Proofs.Graph.RequiredDistances
import TrackPlan.Proofs.Graph.ReverseEdge
import TrackPlan.Proofs.Graph.Words
import TrackPlan.Proofs.Mutex.Components
import TrackPlan.Proofs.Mutex.Least
import TrackPlan.Proofs.Mutex.Overlaps
import TrackPlan.Proofs.Mutex.Partition
import TrackPlan.Proofs.Mutex.Sealed
import TrackPlan.Proofs.Record.Joining
import TrackPlan.Proofs.Redeclaration
import TrackPlan.Proofs.Registry.Failing
import TrackPlan.Proofs.Registry.Orderly
import TrackPlan.Proofs.Relabeling
import TrackPlan.Proofs.Reordering
import TrackPlan.Proofs.Ring
import TrackPlan.Proofs.Route.Reversal
import TrackPlan.Proofs.Route.Shortest
import TrackPlan.Proofs.Run
import TrackPlan.Proofs.Table.Consistency
import TrackPlan.Proofs.Table.Recovery
import TrackPlan.Proofs.Table.RoundTrip
