import TrackPlan.Document.Datum

/-!
# Shapes of data

A shape says what a piece of a document has to be. Each format reads a text by a shape and gives a
datum of that shape, in which a structure has all of its fields, in the order of the shape.
-/

namespace TrackPlan

/-- What a piece of a document has to be. -/
inductive Shape where
  | text
  /-- A number below a bound. -/
  | number (bound : Nat)
  | flag
  /-- One of several named alternatives. -/
  | choice (names : List String)
  /-- An optional datum. -/
  | option (inner : Shape)
  | list (item : Shape)
  /-- A structure with a name of its own. A field has a name, a shape, and what it counts as if it
  is not there; without the last it must be there. -/
  | struct (name : String) (fields : List (String × Shape × Option Datum))

/-- The fields of a structure. -/
abbrev Layout := List (String × Shape × Option Datum)

/-- A field that must be there. -/
def required (name : String) (s : Shape) : String × Shape × Option Datum := (name, s, none)

/-- A field that counts as `default` if it is not there. -/
def optional (name : String) (s : Shape) (default : Datum) : String × Shape × Option Datum :=
  (name, s, some default)

namespace Shape

/-- A number of 8 bits. -/
def byte : Shape := number 256

/-- A number of 32 bits. -/
def word : Shape := number 4294967296

/-- A number of 64 bits. -/
def long : Shape := number 18446744073709551616

/-- One of several alternatives, by their names. -/
def oneOf {α : Type} (name : α → String) (all : List α) : Shape := choice (all.map name)

end Shape

namespace Layout

/-- The fields of a structure from those that have been read, in any order; `none` if one has been
read twice, or has not and must be. -/
def complete (l : Layout) (read : List (String × Datum)) : Option (List (String × Datum)) :=
  if (read.map Prod.fst).Nodup then
    l.mapM fun (name, _, default) => ((read.lookup name).or default).map (name, ·)
  else none

end Layout

end TrackPlan
