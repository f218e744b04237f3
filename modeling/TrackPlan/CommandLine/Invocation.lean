import TrackPlan.Config

/-!
# Invocations

What a command line asks for.
-/

namespace TrackPlan

/-- A run, as a command line asks for it. -/
structure Invocation where
  /-- The name of the track. -/
  name : String
  /-- The file with the track description; without one it is the standard input. -/
  input : Option String := none
  /-- The file to write; without one it is the standard output. -/
  output : Option String := none
  format : Option Format := none
  /-- The configuration file. -/
  config : Option String := none
  /-- The ends of each route that is asked for. -/
  routes : List (String × String) := []
  maxNodes : Option Nat := none
  maxSensorAddress : Option UInt32 := none
  requireDistances : Bool := false
  deriving DecidableEq, Repr

namespace Invocation

/-- The options of the compilation: what the command line sets goes before the configuration, and
either may require distances. -/
def options (i : Invocation) (c : Config) : Options where
  maxNodes := i.maxNodes.or c.options.maxNodes
  maxSensorAddress := i.maxSensorAddress.or c.options.maxSensorAddress
  requireDistances := c.options.requireDistances || i.requireDistances

/-- The format of the output: the one asked for, or else that of the output file if it has an
extension, or else the configured one, or else JSON. -/
def outputFormat (i : Invocation) (c : Config) : Except FileError Format :=
  match i.format, i.output.filter fun path => (Path.extension? path).isSome with
  | some f, _ => .ok f
  | none, some path => Format.ofPath path
  | none, none => .ok (c.format.getD .json)

end Invocation

end TrackPlan
