import TrackPlan.CommandLine.Reader
import TrackPlan.Host.Basic
import TrackPlan.Route

/-!
# Runs

A run loads the configuration, reads a track description, compiles it, and writes either a route on
the track or the table of it. It writes last, and nothing else, so a run that fails before that
writes nothing.
-/

namespace TrackPlan

/-- Why a run fails. -/
inductive RunError where
  | config (path : String) (e : ConfigError)
  | readFile (path : String) (e : AccessError)
  | readInput (e : AccessError)
  | compile (name : String) (e : CompileError)
  /-- More than one route is asked for. -/
  | severalRoutes
  | unknownNode (name : String)
  | noRoute (src dest : String)
  | format (e : FileError)
  | emit (e : FileError)
  | writeFile (path : String) (e : AccessError)
  deriving DecidableEq, Repr

namespace RunError

/-- The error in words. -/
def message : RunError → String
  | config path _ => s!"failed to load config {path}"
  | readFile path _ => s!"failed to read {path}"
  | readInput _ => "failed to read stdin"
  | compile name _ => s!"failed to compile track '{name}'"
  | severalRoutes => "--route takes exactly two node names"
  | unknownNode name => s!"unknown node '{name}'"
  | noRoute src dest => s!"no route from '{src}' to '{dest}'"
  | format _ => "pass --format to choose an output format"
  | emit _ => "failed to emit track"
  | writeFile path _ => s!"failed to write {path}"

/-- The error behind it in words, if there is one. -/
def cause? : RunError → Option String
  | config _ e => some e.message
  | readFile _ e | readInput e | writeFile _ e => some e.message
  | compile _ e => some e.message
  | format e | emit e => some e.message
  | severalRoutes | unknownNode _ | noRoute .. => none

end RunError

/-- A route in words: the names of its nodes, and its length. -/
def Route.describe (g : Graph) (r : Route) : String :=
  let names := " -> ".intercalate (r.nodes.map g.nameOf)
  s!"{names} ({r.distance}mm)\n"

namespace Invocation

/-- The route between two nodes, in words. -/
def routeText (t : Track) (src dest : String) : Except RunError String := do
  for name in [src, dest] do
    if (t.graph.nodeId? name).isNone then throw (.unknownNode name)
  match t.graph.shortestRouteByName? src dest with
  | some r => return r.describe t.graph
  | none => throw (.noRoute src dest)

/-- What is to be written for a track: the route if one is asked for, or else its table. -/
def product (i : Invocation) (c : Config) (t : Track) : Except RunError ByteArray :=
  match i.routes with
  | [] =>
    match i.outputFormat c with
    | .error e => .error (.format e)
    | .ok f => ((Table.ofTrack i.name t).emit f).mapError .emit
  | [(src, dest)] => String.toUTF8 <$> routeText t src dest
  | _ => .error .severalRoutes

variable {m : Type → Type} [Monad m] (h : Host m)

/-- The configuration, which sets nothing if there is no file for it. -/
def loadConfig (i : Invocation) : m (Except RunError Config) :=
  match i.config with
  | none => pure (.ok {})
  | some path => (·.mapError (.config path)) <$> Config.load h path

/-- The track description. -/
def readDescription (i : Invocation) : m (Except RunError String) :=
  match i.input with
  | none => (·.mapError .readInput) <$> h.readInputText
  | some path => (·.mapError (.readFile path)) <$> h.readText path

/-- Writes the product of a run. -/
def write (i : Invocation) (bytes : ByteArray) : m (Except RunError Unit) :=
  match i.output with
  | none => .ok <$> h.writeOutput bytes
  | some path => (·.mapError (.writeFile path)) <$> h.writeFile path bytes

/-- Runs what is asked for. -/
def run (i : Invocation) : ExceptT RunError m Unit := do
  let c ← ExceptT.mk (i.loadConfig h)
  let text ← ExceptT.mk (i.readDescription h)
  let track ← ExceptT.mk (pure ((compile text (i.options c)).result.mapError (.compile i.name)))
  let bytes ← ExceptT.mk (pure (i.product c track))
  ExceptT.mk (i.write h bytes)

end Invocation

/-- How the program ends. -/
inductive Outcome where
  | done
  | failed (e : RunError)
  | misused (e : UsageError)
  deriving DecidableEq, Repr

/-- The exit code of the program. -/
def Outcome.code : Outcome → UInt32
  | done => 0
  | failed _ => 1
  | misused _ => 2

/-- What the program calls itself. -/
def versionText : String := "trackc 0.1.0\n"

/-- Executes a command line. -/
def execute {m : Type → Type} [Monad m] (h : Host m) (defaultConfig : Option String)
    (args : List String) : m Outcome := do
  match Request.read defaultConfig args with
  | .error e => return .misused e
  | .ok .version =>
    h.writeOutput versionText.toUTF8
    return .done
  | .ok (.run i) =>
    match ← (i.run h).run with
    | .ok () => return .done
    | .error e => return .failed e

end TrackPlan
