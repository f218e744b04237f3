import TrackPlan.Document.Shape
import TrackPlan.Table.Basic

/-!
# Track tables as documents

How a track table is laid out in a document: the shape of each of its parts, the datum of a part,
and the part that a datum of the shape stands for. Fields that may be missing when a table is read
are the edges of a node, the calibration loop, and its branches.
-/

namespace TrackPlan

open Shape (byte word long)

namespace TableEdge

/-- The shape of an edge. -/
def shape : Shape :=
  .struct "EdgeRecord" [required "slot" byte, required "dest" word,
    required "reverse_kind" (.oneOf ReverseKind.name ReverseKind.all),
    required "reverse_slot" word, required "distance_mm" word, required "mutex_group" word,
    required "mutex_size" word]

/-- The edge as data. -/
def toDatum (e : TableEdge) : Datum :=
  .struct [("slot", .number e.slot), ("dest", .number e.dest),
    ("reverse_kind", .choice e.reverseKind.name), ("reverse_slot", .number e.reverseSlot),
    ("distance_mm", .number e.distance), ("mutex_group", .number e.mutexGroup),
    ("mutex_size", .number e.mutexSize)]

/-- The edge that a datum stands for. -/
def ofDatum? : Datum → Option TableEdge
  | .struct [(_, .number slot), (_, .number dest), (_, .choice kind), (_, .number reverseSlot),
      (_, .number distance), (_, .number mutexGroup), (_, .number mutexSize)] => do
    let reverseKind ← ReverseKind.all.find? (·.name == kind)
    return { slot, dest, reverseKind, reverseSlot, distance, mutexGroup, mutexSize }
  | _ => none

end TableEdge

namespace TableNode

/-- The shape of a node. -/
def shape : Shape :=
  .struct "NodeRecord" [required "index" word, required "kind" (.oneOf Tag.name Tag.all),
    required "name" .text, required "num" word, required "reverse" word,
    optional "edges" (.list TableEdge.shape) (.list [])]

/-- The node as data. -/
def toDatum (n : TableNode) : Datum :=
  .struct [("index", .number n.index), ("kind", .choice n.kind.name), ("name", .text n.name),
    ("num", .number n.num), ("reverse", .number n.reverse),
    ("edges", .ofList TableEdge.toDatum n.edges)]

/-- The node that a datum stands for. -/
def ofDatum? : Datum → Option TableNode
  | .struct [(_, .number index), (_, .choice kind), (_, .text name), (_, .number num),
      (_, .number reverse), (_, edges)] => do
    let kind ← Tag.all.find? (·.name == kind)
    let edges ← edges.toList? TableEdge.ofDatum?
    return { index, kind, name, num, reverse, edges }
  | _ => none

end TableNode

namespace LoopSensor

/-- The shape of a sensor. -/
def shape : Shape :=
  .struct "CalibrationSensorRecord" [required "node" word, required "distance_mm" long]

/-- The sensor as data. -/
def toDatum (s : LoopSensor) : Datum :=
  .struct [("node", .number s.node), ("distance_mm", .number s.distance)]

/-- The sensor that a datum stands for. -/
def ofDatum? : Datum → Option LoopSensor
  | .struct [(_, .number node), (_, .number distance)] => some { node, distance }
  | _ => none

end LoopSensor

namespace LoopBranch

/-- The shape of a branch. -/
def shape : Shape :=
  .struct "CalibrationBranchRecord" [required "node" word, required "curved" .flag]

/-- The branch as data. -/
def toDatum (b : LoopBranch) : Datum :=
  .struct [("node", .number b.node), ("curved", .flag b.curved)]

/-- The branch that a datum stands for. -/
def ofDatum? : Datum → Option LoopBranch
  | .struct [(_, .number node), (_, .flag curved)] => some { node, curved }
  | _ => none

end LoopBranch

namespace TableLoop

/-- The shape of a loop. -/
def shape : Shape :=
  .struct "CalibrationRecord" [required "sensors" (.list LoopSensor.shape),
    optional "branches" (.list LoopBranch.shape) (.list [])]

/-- The loop as data. -/
def toDatum (l : TableLoop) : Datum :=
  .struct [("sensors", .ofList LoopSensor.toDatum l.sensors),
    ("branches", .ofList LoopBranch.toDatum l.branches)]

/-- The loop that a datum stands for. -/
def ofDatum? : Datum → Option TableLoop
  | .struct [(_, sensors), (_, branches)] => do
    let sensors ← sensors.toList? LoopSensor.ofDatum?
    let branches ← branches.toList? LoopBranch.ofDatum?
    return { sensors, branches }
  | _ => none

end TableLoop

namespace Table

/-- The shape of a table. -/
def shape : Shape :=
  .struct "TrackRecord" [required "name" .text, required "node_count" word,
    required "sensor_count" word, required "nodes" (.list TableNode.shape),
    optional "calibration" (.option TableLoop.shape) .absent]

/-- The table as data. -/
def toDatum (t : Table) : Datum :=
  .struct [("name", .text t.name), ("node_count", .number t.nodeCount),
    ("sensor_count", .number t.sensorCount), ("nodes", .ofList TableNode.toDatum t.nodes),
    ("calibration", .ofOption TableLoop.toDatum t.loop)]

/-- The table that a datum stands for. -/
def ofDatum? : Datum → Option Table
  | .struct [(_, .text name), (_, .number nodeCount), (_, .number sensorCount), (_, nodes),
      (_, loop)] => do
    let nodes ← nodes.toList? TableNode.ofDatum?
    let loop ← loop.toOption? TableLoop.ofDatum?
    return { name, nodeCount, sensorCount, nodes, loop }
  | _ => none

end Table

end TrackPlan
