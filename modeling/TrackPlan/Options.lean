/-!
# Options of a compilation
-/

namespace TrackPlan

/-- Limits and strictness of one compilation. -/
structure Options where
  /-- The most nodes, dummies included; `defaultMaxNodes` if none is given. -/
  maxNodes : Option Nat := none
  /-- The highest sensor address. -/
  maxSensorAddress : Option UInt32 := none
  /-- Whether an edge without a distance is an error. -/
  requireDistances : Bool := false
  deriving DecidableEq, Repr

/-- The most nodes if none are given. -/
def defaultMaxNodes : Nat := 65536

/-- The most nodes for which twice a position, plus a slot, fits 32 bits. -/
def nodeCeiling : Nat := 2147483647

/-- The limit on nodes that is in effect. -/
def Options.nodeLimit (o : Options) : Nat := min (o.maxNodes.getD defaultMaxNodes) nodeCeiling

theorem Options.nodeLimit_le (o : Options) : o.nodeLimit ≤ nodeCeiling := Nat.min_le_right ..

end TrackPlan
