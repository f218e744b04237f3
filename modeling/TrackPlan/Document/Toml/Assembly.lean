import TrackPlan.Document.Toml.Value

/-!
# Assembling TOML tables

A TOML text is a sequence of statements: headers, which open tables, and entries, which go to the
open table. No table may be opened twice and no key may be set twice.
-/

namespace TrackPlan.Toml

/-- The entries of a table, in the order in which their keys first occur. -/
abbrev Entries := List (String × Toml)

/-- One statement; keys are paths. -/
inductive Statement where
  /-- `[a.b]` -/
  | header (keys : List String)
  /-- `[[a.b]]` -/
  | element (keys : List String)
  /-- `a.b = …` -/
  | entry (keys : List String) (value : Toml)
  deriving Repr

/-- Changes what a key holds, or sets it; `none` refuses. -/
def update (key : String) (f : Option Toml → Option Toml) : Entries → Option Entries
  | [] => (f none).map fun x => [(key, x)]
  | (k, x) :: rest =>
    if k = key then (f (some x)).map fun y => (k, y) :: rest
    else (update key f rest).map ((k, x) :: ·)

/-- Changes the table at a path of headers. Tables that are not there yet are implied; of an array
of tables the last one is meant. -/
def within (f : Entries → Option Entries) : List String → Entries → Option Entries
  | [], es => f es
  | key :: path, es =>
    update key (fun
      | none => (within f path []).map (.table .implied)
      | some (.table origin es) =>
        if origin = .inline then none else (within f path es).map (.table origin)
      | some (.tables (es :: older)) => (within f path es).map fun es => .tables (es :: older)
      | some _ => none) es

/-- Sets a path of dotted keys in a table. The table that gets the value must itself be made by
dotted keys (`isOpen`), unless it is the open one; a table with a header or in braces is passed by
none. -/
def assign (value : Toml) : (isOpen : Bool) → List String → Entries → Option Entries
  | _, [], _ => none
  | isOpen, [key], es =>
    if isOpen then
      update key (fun
        | none => some value
        | some _ => none) es
    else none
  | _, key :: path, es =>
    update key (fun
      | none => (assign value true path []).map (.table .dotted)
      | some (.table .dotted es) => (assign value true path es).map (.table .dotted)
      | some (.table .implied es) => (assign value false path es).map (.table .implied)
      | some (.tables (es :: older)) =>
        (assign value false path es).map fun es => .tables (es :: older)
      | some _ => none) es

/-- Opens a table: a new one, or one that headers have implied. -/
def openTable (key : String) : Entries → Option Entries :=
  update key fun
    | none => some (.table .header [])
    | some (.table .implied es) => some (.table .header es)
    | some _ => none

/-- Opens a further table of an array of tables, or the first one. -/
def openElement (key : String) : Entries → Option Entries :=
  update key fun
    | none => some (.tables [[]])
    | some (.tables elements) => some (.tables ([] :: elements))
    | some _ => none

/-- Carries out statements on the root table; entries go to the table at `current`. -/
def execute : (current : List String) → Entries → List Statement → Option Entries
  | _, root, [] => some root
  | _, root, .header keys :: rest => do
    let key ← keys.getLast?
    execute keys (← within (openTable key) keys.dropLast root) rest
  | _, root, .element keys :: rest => do
    let key ← keys.getLast?
    execute keys (← within (openElement key) keys.dropLast root) rest
  | current, root, .entry keys value :: rest => do
    execute current (← within (assign value true keys) current root) rest

/-- The root table of a sequence of statements. -/
def assemble (statements : List Statement) : Option Toml :=
  (execute [] [] statements).map (.table .header)

/-- The table in braces that its entries make. -/
def inlineTable (entries : List (List String × Toml)) : Option Toml :=
  (entries.foldlM (fun es (keys, value) => assign value true keys es) []).map (.table .inline)

end TrackPlan.Toml
