import TrackPlan.Record.Writer

/-!
# Rings

A ring joins sensors `F0`, `F1`, … in a circle, their reverses being `R0`, `R1`, …. Between two of
them lies a segment: plain track, or a siding. The siding of segment `i` has the branch `BA i` and
its merge `MA i`, a straight way over the sensor `P i` and a curved one over `Q i`, with reverses
`PR i` and `QR i`, and the joining switch with branch `BB i` and merge `MB i`.
-/

namespace TrackPlan.Example

/-- What lies between two neighbouring sensors of a ring. -/
structure Segment where
  /-- The length of plain track, or four times that of each stretch of the straight way. -/
  length : Nat
  /-- Whether the segment is a siding. -/
  siding : Bool
  /-- Whether the calibration loop takes the curved way of the siding. -/
  takeCurved : Bool
  deriving DecidableEq, Repr

/-- A segment of plain track. -/
def Segment.plain (length : Nat) : Segment := ⟨length, false, false⟩

namespace Ring

/-- A name with a number. -/
def named (stem : String) (i : Nat) : String := s!"{stem}{i}"

/-- The `k`-th address pair of a ring begins here; `gap` addresses lie between two pairs. -/
def address (gap k : Nat) : UInt32 := UInt32.ofNat (k * (2 + gap))

/-- A pair of sensors at the `k`-th address pair. -/
def sensorPair (gap k : Nat) (name ahead back behind : String) : Record :=
  .sensors ⟨name, address gap k, ahead⟩ ⟨back, address gap k + 1, behind⟩

/-- How the sensor before a segment goes on. -/
def entry (s : Segment) (i next : Nat) : String :=
  if s.siding then named "BA" i else named "F" next

/-- How the reverse of the sensor after a segment goes on. -/
def exit (s : Segment) (i : Nat) : String :=
  if s.siding then named "BB" i else named "R" i

/-- The sensors between the segments; `previous` is the segment before the first one listed, with
its number. -/
def junctions (gap n : Nat) (previous : Segment × Nat) : List (Segment × Nat) → List Record
  | [] => []
  | (s, i) :: rest =>
    sensorPair gap i (named "F" i) (entry s i ((i + 1) % n)) (named "R" i)
      (exit previous.1 previous.2) :: junctions gap n (s, i) rest

/-- The record of a distance; a distance of less than 1 counts as 1. -/
def measured (src dest : String) (length : Nat) : Record :=
  .distance src dest (UInt32.ofNat (max length 1))

/-- A siding: two switches, two sensor pairs and six distances. It is the `k`-th siding of a ring
with `n` segments. -/
def siding (gap n k : Nat) (s : Segment) (i : Nat) : List Record :=
  let next := named "F" ((i + 1) % n)
  let quarter := max (s.length / 4) 1
  [.switch (named "BA" i) (UInt32.ofNat (2 * k + 1)) (named "P" i) (named "Q" i) (named "MA" i)
      (named "R" i),
    .switch (named "BB" i) (UInt32.ofNat (2 * k + 2)) (named "PR" i) (named "QR" i) (named "MB" i)
      next,
    sensorPair gap (n + 2 * k) (named "P" i) (named "MB" i) (named "PR" i) (named "MA" i),
    sensorPair gap (n + 2 * k + 1) (named "Q" i) (named "MB" i) (named "QR" i) (named "MA" i),
    measured (named "F" i) (named "BA" i) quarter,
    measured (named "BA" i) (named "P" i) quarter,
    measured (named "BA" i) (named "Q" i) (quarter + 10),
    measured (named "P" i) (named "MB" i) quarter,
    measured (named "Q" i) (named "MB" i) (quarter + 10),
    measured (named "MB" i) next quarter]

/-- The segments, the first siding listed being the `k`-th one of the ring. -/
def stretches (gap n : Nat) : (k : Nat) → List (Segment × Nat) → List Record
  | _, [] => []
  | k, (s, i) :: rest =>
    if s.siding then siding gap n k s i ++ stretches gap n (k + 1) rest
    else measured (named "F" i) (named "F" ((i + 1) % n)) s.length :: stretches gap n k rest

/-- The part of the calibration loop from one sensor up to the next. -/
def lap (s : Segment) (i : Nat) : List Record :=
  let via := if s.takeCurved then "Q" else "P"
  .calibration (named "F" i) ::
    if s.siding then
      [.calibration (named "BA" i), .calibration (named via i), .calibration (named "MB" i)]
    else []

/-- The records of a ring. -/
def track (segments : List Segment) (gap : Nat) : List Record :=
  let numbered := segments.zipIdx
  match numbered.getLast? with
  | none => []
  | some last =>
    junctions gap segments.length last numbered ++ stretches gap segments.length 0 numbered ++
      numbered.flatMap fun (s, i) => lap s i

/-- A mutex group for every siding, seeded by its straight way. -/
def mutexes (segments : List Segment) : List Record :=
  segments.zipIdx.filterMap fun (s, i) =>
    if s.siding then some (.mutex [(named "BA" i, named "P" i)]) else none

end Ring

/-- The text of a ring. -/
def ringTrack (segments : List Segment) (gap : Nat) : String :=
  Record.writeAll (Ring.track segments gap)

/-- The text of the mutex groups of a ring. -/
def ringMutexes (segments : List Segment) : String := Record.writeAll (Ring.mutexes segments)

/-- The segments of a large ring, plain ones and sidings in turn; there are two at least. -/
def largeRingSegments (n : Nat) : List Segment :=
  (List.range (max n 2)).map fun i =>
    if i % 2 = 0 then .plain (500 + i) else ⟨800, true, i % 3 == 0⟩

/-- The text of a large ring with its mutex groups. -/
def largeRing (n : Nat) : String :=
  ringTrack (largeRingSegments n) 0 ++ ringMutexes (largeRingSegments n)

end TrackPlan.Example
