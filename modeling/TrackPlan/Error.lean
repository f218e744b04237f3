import TrackPlan.Record.Basic

/-!
# What can be wrong with a track description

Every failure has one of the causes below. A cause that comes from a single record knows its line.
-/

namespace TrackPlan

/-- Why the calibration records are no loop. -/
inductive LoopFault where
  /-- Two neighbours on the loop have no edge between them. -/
  | gap (src dest : String)
  /-- The loop passes no sensor. -/
  | noSensor
  /-- Any other reason, in words. -/
  | other (reason : String)
  deriving DecidableEq, Repr

/-- The fault in words. -/
def LoopFault.reason : LoopFault → String
  | .gap src dest => s!"no edge from '{src}' to '{dest}'"
  | .noSensor => "loop passes no sensor"
  | .other reason => reason

/-- Why a track description does not compile. -/
inductive CompileError where
  /-- A line, quoted without its outer blanks, is no record. -/
  | malformed (line : Nat) (content : String) (fault : LineFault)
  /-- A node is declared under a name that is taken. -/
  | duplicateName (line : Nat) (name : String)
  /-- A sensor has the address of an earlier one. -/
  | duplicateAddress (line : Nat) (address : UInt32) (name existing : String)
  /-- A record mentions a name that no node has. -/
  | unknownName (line : Nat) (name : String)
  /-- A record names a pair of nodes without an edge between them. -/
  | unknownEdge (line : Nat) (src dest : String)
  /-- A distance belongs to no edge. -/
  | orphanDistance (line : Nat) (src dest : String)
  /-- An edge has no distance although every edge needs one. -/
  | missingDistance (src dest : String)
  /-- An edge cannot be travelled the other way. -/
  | strandedEdge (src dest reverseSrc reverseDest : String)
  /-- A node lists an edge that starts at another node. -/
  | foreignEdge (edge : Nat) (claimed owner : String)
  /-- A node is not the reverse of its reverse. -/
  | asymmetricReverse (name got : String)
  /-- The calibration records are no loop. -/
  | invalidLoop (line : Nat) (fault : LoopFault)
  /-- A sensor address is above the limit. -/
  | addressOutOfRange (line : Nat) (name : String) (address limit : UInt32)
  /-- The layout is longer than the limit. -/
  | tooManyNodes (count limit : Nat)
  deriving DecidableEq, Repr

namespace CompileError

/-- The line the error points at, if it comes from one record. -/
def line : CompileError → Option Nat
  | malformed line .. | duplicateName line .. | duplicateAddress line .. | unknownName line ..
  | unknownEdge line .. | orphanDistance line .. | invalidLoop line .. => some line
  | addressOutOfRange line .. => some line
  | missingDistance .. | strandedEdge .. | foreignEdge .. | asymmetricReverse .. => none
  | tooManyNodes .. => none

/-- The error in words, without its line. -/
def detail : CompileError → String
  | malformed _ content fault => s!"{fault.reason}: `{content}`"
  | duplicateName _ name => s!"duplicate node name '{name}'"
  | duplicateAddress _ address name existing =>
    s!"sensor address {address} of '{name}' is already used by '{existing}'"
  | unknownName _ name => s!"unknown node name '{name}'"
  | unknownEdge _ src dest => s!"no edge from '{src}' to '{dest}'"
  | orphanDistance _ src dest => s!"distance for nonexistent edge from '{src}' to '{dest}'"
  | missingDistance src dest => s!"no distance declared for edge from '{src}' to '{dest}'"
  | strandedEdge src dest reverseSrc reverseDest =>
    s!"edge from '{src}' to '{dest}' has no reverse edge from '{reverseSrc}' to '{reverseDest}'"
  | foreignEdge edge claimed owner =>
    s!"edge {edge} claims source '{claimed}' but is owned by '{owner}'"
  | asymmetricReverse name got => s!"reverse of reverse of '{name}' is '{got}'"
  | invalidLoop _ fault => s!"invalid calibration cycle: {fault.reason}"
  | addressOutOfRange _ name address limit =>
    s!"sensor '{name}' has address {address}, limit is {limit}"
  | tooManyNodes count limit => s!"track has {count} nodes, limit is {limit}"

/-- The error in words, after its line if it has one. -/
def message (e : CompileError) : String :=
  match e.line with
  | some n => s!"line {n}: {e.detail}"
  | none => e.detail

end CompileError

end TrackPlan
