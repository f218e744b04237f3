/-!
# Small layouts

Track descriptions that show one thing each.
-/

namespace TrackPlan.Example

/-- Two sensors that face each other. The text has three lines and ends without a line feed. -/
def twoSensorLoop : String :=
  "# two sensors facing each other\n" ++
  "sensor S1 : 0 -> S2 @ S2 : 1 -> S1\n" ++
  "dist S1 S2 500mm"

/-- Three sensors in a triangle, and a calibration loop that names its first node again. -/
def triangle : String :=
  "sensor A : 0 -> B @ A_R : 1 -> C_R\n" ++
  "sensor B : 2 -> C @ B_R : 3 -> A_R\n" ++
  "sensor C : 4 -> A @ C_R : 5 -> B_R\n" ++
  "dist A B 100mm\n" ++
  "dist B C 200mm\n" ++
  "dist C A 300mm\n" ++
  "calib A\n" ++
  "calib B\n" ++
  "calib C\n" ++
  "calib A\n"

/-- An open line between two ends, with a separator in the middle and two unused addresses. -/
def openLine : String :=
  "enter EN1 -> S1 @ EX1\n" ++
  "sensor S1 : 0 -> SP1 @ S2 : 1 -> EX1\n" ++
  "sep SP1 -> S3 @ SP2 -> S2\n" ++
  "sensor S3 : 4 -> EX2 @ S4 : 5 -> SP2\n" ++
  "enter EN2 -> S4 @ EX2\n" ++
  "dist EN1 S1 50mm\n" ++
  "dist S1 SP1 120mm\n" ++
  "dist SP1 S3 80mm\n" ++
  "dist S3 EX2 60mm\n"

/-- A loop with one passing siding: a straight way over P1 and a curved one over Q1. -/
def passingLoop : String :=
  "sensor A1 : 0 -> BR1 @ A2 : 1 -> A6\n" ++
  "sensor P1 : 2 -> MR2 @ P2 : 3 -> MR1\n" ++
  "sensor Q1 : 4 -> MR2 @ Q2 : 5 -> MR1\n" ++
  "sensor A3 : 6 -> A5 @ A4 : 7 -> BR2\n" ++
  "sensor A5 : 8 -> A1 @ A6 : 9 -> A4\n" ++
  "switch BR1 : 1 -> P1/(Q1) @ MR1 -> A2\n" ++
  "switch BR2 : 2 -> P2/(Q2) @ MR2 -> A3\n" ++
  "dist A1 BR1 100mm\n" ++
  "dist BR1 P1 200mm\n" ++
  "dist BR1 Q1 250mm\n" ++
  "dist P1 MR2 200mm\n" ++
  "dist Q1 MR2 250mm\n" ++
  "dist MR2 A3 100mm\n" ++
  "dist A3 A5 300mm\n" ++
  "dist A5 A1 400mm\n"

end TrackPlan.Example
