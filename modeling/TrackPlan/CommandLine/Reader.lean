import TrackPlan.CommandLine.Invocation
import TrackPlan.Text.Word

/-!
# Reading a command line

A command line is one name, with options before and after it. A long option is `--` and a word; its
value follows as an argument of its own or after an equals sign. A short option is `-` and a letter;
its value follows at once, after an equals sign, or as an argument of its own, and short options
without values may be joined. An argument of its own is a value only if it does not look like an
option. After `--` there are no options.

Arguments are taken in from left to right. The version is asked for as soon as its option comes up,
whatever follows it.
-/

namespace TrackPlan

open Text

/-- The options of a command line. -/
inductive Flag where
  | input
  | output
  | format
  | config
  | route
  | maxNodes
  | maxSensorAddress
  | requireDistances
  | verbose
  | version
  deriving DecidableEq, Repr

namespace Flag

/-- Every option. -/
def all : List Flag :=
  [input, output, format, config, route, maxNodes, maxSensorAddress, requireDistances, verbose,
    version]

/-- The word of the long option. -/
def word : Flag → String
  | input => "input"
  | output => "output"
  | format => "format"
  | config => "config"
  | route => "route"
  | maxNodes => "max-nodes"
  | maxSensorAddress => "max-sensor-address"
  | requireDistances => "require-distances"
  | verbose => "verbose"
  | version => "version"

/-- The letter of the short option, if it has one. -/
def letter? : Flag → Option Char
  | input => some 'i'
  | output => some 'o'
  | format => some 'f'
  | config => some 'c'
  | verbose => some 'v'
  | version => some 'V'
  | route | maxNodes | maxSensorAddress | requireDistances => none

/-- The number of values that the option takes. -/
def arity : Flag → Nat
  | input | output | format | config | maxNodes | maxSensorAddress => 1
  | route => 2
  | requireDistances | verbose | version => 0

/-- The option with this word. -/
def ofWord? (cs : List Char) : Option Flag := all.find? fun f => f.word.toList == cs

/-- The option with this letter. -/
def ofLetter? (c : Char) : Option Flag := all.find? fun f => f.letter? == some c

end Flag

/-- What is wrong with a command line. -/
inductive UsageError where
  | unknownOption (argument : String)
  | wrongNumberOfValues (f : Flag)
  | invalidValue (f : Flag) (value : String)
  | repeatedOption (f : Flag)
  | extraName (argument : String)
  | missingName
  deriving DecidableEq, Repr

/-- The error in words. -/
def UsageError.message : UsageError → String
  | unknownOption argument => s!"unexpected argument '{argument}'"
  | wrongNumberOfValues f => s!"wrong number of values for '--{f.word}': it takes {f.arity}"
  | invalidValue f value => s!"invalid value '{value}' for '--{f.word}'"
  | repeatedOption f => s!"the argument '--{f.word}' cannot be used multiple times"
  | extraName argument => s!"unexpected argument '{argument}'"
  | missingName => "the required argument <NAME> was not provided"

/-- A part of a command line. -/
inductive Item where
  | name (argument : String)
  | option (f : Flag) (values : List String)
  | wrong (e : UsageError)
  deriving DecidableEq, Repr

namespace Item

/-- An option with its value attached to it. -/
def attached (f : Flag) (value : List Char) : Item :=
  if f.arity = 1 then option f [String.ofList value] else wrong (.wrongNumberOfValues f)

/-- A long option, without its dashes. If it awaits values it comes second. -/
def long (body : List Char) : List Item × Option Flag :=
  match Flag.ofWord? (body.takeWhile (· != '=')), body.dropWhile (· != '=') with
  | none, _ => ([wrong (.unknownOption ("--" ++ String.ofList body))], none)
  | some f, _ :: value => ([attached f value], none)
  | some f, [] => if f.arity = 0 then ([option f []], none) else ([], some f)

/-- Short options, without their dash. If the last one awaits a value it comes second. -/
def cluster : List Char → List Item × Option Flag
  | [] => ([], none)
  | c :: cs =>
    match Flag.ofLetter? c with
    | none => ([wrong (.unknownOption ("-" ++ String.ofList [c]))], none)
    | some f =>
      if f.arity = 0 then
        let (items, awaiting) := cluster cs
        (option f [] :: items, awaiting)
      else
        match cs with
        | [] => ([], some f)
        | '=' :: value | value => ([attached f value], none)

/-- Whether an argument is none of its own: it begins with a dash and is more than that. -/
def isDashed : List Char → Bool
  | '-' :: _ :: _ => true
  | _ => false

/-- The parts of a command line. An option that awaits values comes with those it has got. -/
def scan : (awaiting : Option (Flag × List String)) → List String → List Item
  | none, [] => []
  | some (f, _), [] => [wrong (.wrongNumberOfValues f)]
  | some (f, got), arg :: rest =>
    if isDashed arg.toList then [wrong (.wrongNumberOfValues f)]
    else if got.length + 1 = f.arity then option f (got ++ [arg]) :: scan none rest
    else scan (some (f, got ++ [arg])) rest
  | none, arg :: rest =>
    match arg.toList with
    | ['-', '-'] => rest.map name
    | '-' :: '-' :: body =>
      let (items, awaiting) := long body
      items ++ scan (awaiting.map (·, [])) rest
    | '-' :: c :: cs =>
      let (items, awaiting) := cluster (c :: cs)
      items ++ scan (awaiting.map (·, [])) rest
    | _ => name arg :: scan none rest

end Item

/-- A number in decimal digits, with a plus sign before it or not. -/
def readNumber? (cs : List Char) : Option Nat :=
  let digits :=
    match cs with
    | '+' :: rest => rest
    | cs => cs
  if digits ≠ [] ∧ digits.all Char.isDigit then some (decimal digits) else none

/-- A number of 64 bits. -/
def readLong? (value : String) : Option Nat :=
  (readNumber? value.toList).filter (· < 18446744073709551616)

/-- A number of 32 bits; zero may have a minus sign. -/
def readWord? (value : String) : Option UInt32 :=
  match value.toList with
  | '-' :: digits =>
    if digits ≠ [] ∧ digits.all (· == '0') then some 0 else none
  | cs => ((readNumber? cs).filter (· < 4294967296)).map UInt32.ofNat

/-- A path, which is not empty. -/
def readPath? (value : String) : Option String := if value.isEmpty then none else some value

/-- A command line as far as it has been taken in. -/
structure Draft where
  name : Option String := none
  /-- What is known but for the name. -/
  rest : Invocation := { name := "" }
  deriving DecidableEq, Repr

namespace Draft

/-- Sets an option that can be given once. -/
def setOnce {α : Type} (f : Flag) (value : String) (read : String → Option α) (old : Option α)
    (set : α → Invocation) (d : Draft) : Except UsageError Draft :=
  match old, read value with
  | some _, _ => .error (.repeatedOption f)
  | none, none => .error (.invalidValue f value)
  | none, some a => .ok { d with rest := set a }

/-- Takes in an option with its values. -/
def takeOption (d : Draft) : Flag → List String → Except UsageError Draft
  | .input, [v] => d.setOnce .input v readPath? d.rest.input fun p => { d.rest with input := p }
  | .output, [v] =>
    d.setOnce .output v readPath? d.rest.output fun p => { d.rest with output := p }
  | .format, [v] =>
    d.setOnce .format v (fun s => (Format.ofName s).toOption) d.rest.format fun f =>
      { d.rest with format := f }
  | .config, [v] =>
    d.setOnce .config v readPath? d.rest.config fun p => { d.rest with config := p }
  | .route, [src, dest] =>
    .ok { d with rest := { d.rest with routes := d.rest.routes ++ [(src, dest)] } }
  | .maxNodes, [v] =>
    d.setOnce .maxNodes v readLong? d.rest.maxNodes fun n => { d.rest with maxNodes := n }
  | .maxSensorAddress, [v] =>
    d.setOnce .maxSensorAddress v readWord? d.rest.maxSensorAddress fun n =>
      { d.rest with maxSensorAddress := n }
  | .requireDistances, [] =>
    if d.rest.requireDistances then .error (.repeatedOption .requireDistances)
    else .ok { d with rest := { d.rest with requireDistances := true } }
  | .verbose, [] => .ok d
  | f, _ => .error (.wrongNumberOfValues f)

/-- Takes in a part of the command line. -/
def take (d : Draft) : Item → Except UsageError Draft
  | .name argument =>
    match d.name with
    | none => .ok { d with name := some argument }
    | some _ => .error (.extraName argument)
  | .option f values => d.takeOption f values
  | .wrong e => .error e

/-- The invocation when all is taken in. A default for the configuration file counts if the command
line names none. -/
def finish (d : Draft) (defaultConfig : Option String) : Except UsageError Invocation := do
  let config ←
    match d.rest.config, defaultConfig with
    | some path, _ => pure (some path)
    | none, none => pure none
    | none, some "" => throw (.invalidValue .config "")
    | none, some path => pure (some path)
  match d.name with
  | some name => return { d.rest with name, config }
  | none => throw .missingName

end Draft

/-- What a command line asks for. -/
inductive Request where
  | version
  | run (i : Invocation)
  deriving DecidableEq, Repr

namespace Request

/-- Takes in the parts of a command line after those that a draft stands for. -/
def ofItems (defaultConfig : Option String) : Draft → List Item → Except UsageError Request
  | d, [] => run <$> d.finish defaultConfig
  | d, item :: rest =>
    if item = .option .version [] then .ok version
    else do ofItems defaultConfig (← d.take item) rest

/-- Reads a command line. -/
def read (defaultConfig : Option String) (args : List String) : Except UsageError Request :=
  ofItems defaultConfig {} (Item.scan none args)

end Request

end TrackPlan
