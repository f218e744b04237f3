/-!
# Records

A track description is a list of records, one a line. Nodes are declared in pairs, each node
together with its reverse: the same place passed in the opposite direction.
-/

namespace TrackPlan

/-- One half of a sensor pair: its name, its address and the node that follows it. -/
structure SensorHalf where
  name : String
  address : UInt32
  ahead : String
  deriving DecidableEq, Repr

/-- One half of a separator pair: its name and the node that follows it. -/
structure SeparatorHalf where
  name : String
  ahead : String
  deriving DecidableEq, Repr

/-- One record of a track description. -/
inductive Record where
  /-- Two sensors, each the reverse of the other. -/
  | sensors (forward backward : SensorHalf)
  /-- Two separators, each the reverse of the other. -/
  | separators (forward backward : SeparatorHalf)
  /-- A branch with its two successors, and the merge that is its reverse. -/
  | switch (branch : String) (number : UInt32) (straight curved merge ahead : String)
  /-- An entry with its successor, and the exit that is its reverse. -/
  | terminal (enter ahead exit : String)
  /-- The length of the edge from `src` to `dest`. -/
  | distance (src dest : String) (millimeters : UInt32)
  /-- Edges that must not be reserved together, each as source and destination. -/
  | mutex (edges : List (String × String))
  /-- One node of the calibration loop. -/
  | calibration (node : String)
  deriving DecidableEq, Repr

/-- A record and the number of its line, counted from one. -/
structure LineRecord where
  line : Nat
  record : Record
  deriving DecidableEq, Repr

/-- Why a line is no record. -/
inductive LineFault where
  /-- The line has none of the seven shapes. -/
  | unrecognized
  /-- A number does not fit 32 bits. -/
  | numberOutOfRange
  /-- A distance of zero. -/
  | zeroDistance
  /-- An entry of a mutex record is not a pair of names. -/
  | mutexEntry
  /-- Any other reason, in words. -/
  | other (reason : String)
  deriving DecidableEq, Repr

/-- The fault in words. -/
def LineFault.reason : LineFault → String
  | .unrecognized => "unrecognized record"
  | .numberOutOfRange => "number out of range"
  | .zeroDistance => "distance must be positive"
  | .mutexEntry => "mutex entries must be `src dest` pairs"
  | .other reason => reason

end TrackPlan
