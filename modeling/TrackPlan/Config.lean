import TrackPlan.Format
import TrackPlan.Host.Basic

/-!
# Configuration

A configuration file sets the options of a compilation and the format of the output. It is a TOML, a
RON or a JSON text, as its extension says, and may leave out anything.
-/

namespace TrackPlan

/-- What a configuration file sets. -/
structure Config where
  options : Options := {}
  /-- The format if nothing else chooses one. -/
  format : Option Format := none
  deriving DecidableEq, Repr

/-- The formats of a configuration file. -/
inductive ConfigFormat where
  | ron
  | toml
  | json
  deriving DecidableEq, Repr

/-- Why there is no configuration. -/
inductive ConfigError where
  /-- The extension of the path belongs to no format. -/
  | unknownExtension (path : String)
  /-- The text is no configuration. -/
  | malformed (path : String)
  /-- The file cannot be read. -/
  | access (e : AccessError)
  deriving DecidableEq, Repr

/-- The error in words. -/
def ConfigError.message : ConfigError → String
  | unknownExtension path => s!"unsupported config format for file: {path}"
  | malformed path => s!"parse error in {path}"
  | access e => e.message

/-- The format that the extension of a path belongs to. -/
def ConfigFormat.ofPath (path : String) : Except ConfigError ConfigFormat :=
  match Path.extension? path with
  | some "ron" => .ok ron
  | some "toml" => .ok toml
  | some "json" => .ok json
  | _ => .error (.unknownExtension path)

namespace Options

/-- The shape of options. -/
def shape : Shape :=
  .struct "CompileOptions" [optional "max_nodes" (.option .long) .absent,
    optional "max_sensor_address" (.option .word) .absent,
    optional "require_distances" .flag (.flag false)]

/-- Options as data. -/
def toDatum (o : Options) : Datum :=
  .struct [("max_nodes", .ofOption .number o.maxNodes),
    ("max_sensor_address", .ofOption (fun a => .number a.toNat) o.maxSensorAddress),
    ("require_distances", .flag o.requireDistances)]

/-- The options that a datum stands for. -/
def ofDatum? : Datum → Option Options
  | .struct [(_, maxNodes), (_, highest), (_, .flag requireDistances)] => do
    let maxNodes ← maxNodes.toOption? Datum.number?
    let highest ← highest.toOption? Datum.number?
    return { maxNodes, maxSensorAddress := highest.map UInt32.ofNat, requireDistances }
  | _ => none

end Options

namespace Config

/-- The shape of a configuration. -/
def shape : Shape :=
  .struct "Config" [optional "compile" Options.shape (Options.toDatum {}),
    optional "output"
      (.struct "OutputConfig" [optional "format" (.option (.oneOf Format.name Format.all)) .absent])
      (.struct [("format", .absent)])]

/-- The configuration that a datum stands for. -/
def ofDatum? : Datum → Option Config
  | .struct [(_, options), (_, .struct [(_, format)])] => do
    let options ← Options.ofDatum? options
    let name? ← format.toOption? Datum.choice?
    return { options, format := name?.bind fun name => Format.all.find? (·.name == name) }
  | _ => none

/-- Reads a configuration from a text. -/
def ofText? (cs : List Char) : ConfigFormat → Option Config
  | .json => (Json.read? shape cs).bind ofDatum?
  | .ron => (Ron.read? shape cs).bind ofDatum?
  | .toml => (Toml.read? shape cs).bind ofDatum?

/-- Reads a configuration from a text; the path is only named in the error. -/
def parse (text : String) (f : ConfigFormat) (path : String) : Except ConfigError Config :=
  match ofText? text.toList f with
  | some c => .ok c
  | none => .error (.malformed path)

/-- Loads a configuration file, which is read only if its extension is known. -/
def load {m : Type → Type} [Monad m] (h : Host m) (path : String) :
    m (Except ConfigError Config) := do
  match ConfigFormat.ofPath path with
  | .error e => return .error e
  | .ok f =>
    match ← h.readText path with
    | .error e => return .error (.access e)
    | .ok text => return parse text f path

end Config

end TrackPlan
