import TrackPlan.Document.Shape

/-!
# Reading data from syntax trees

Most document formats parse to a syntax tree that does not depend on what is expected. A view tells
how such a tree is read as data: which trees count as a text, as a number, as a structure with given
fields. What is read through a view does not depend on the format.
-/

namespace TrackPlan

/-- How trees of type `ν` are read as data. Each reader gives `none` for a tree of another sort. -/
structure View (ν : Type) where
  text? : ν → Option String
  number? : ν → Option Nat
  flag? : ν → Option Bool
  /-- The name of one of several alternatives. -/
  choice? : ν → Option String
  /-- An optional datum, itself `none` if it is not there. -/
  option? : ν → Option (Option ν)
  list? : ν → Option (List ν)
  /-- The fields of a structure with the given field names, each at most once; others are passed
  over. -/
  struct? : (fields : List String) → ν → Option (List (String × ν))

/-- The entries with these names, or `none` if one of the names occurs twice. Other names may. -/
def View.select {ν : Type} (names : List String) (entries : List (String × ν)) :
    Option (List (String × ν)) :=
  let known := entries.filter fun e => names.contains e.1
  if (known.map Prod.fst).Nodup then some known else none

namespace View

variable {ν : Type} (v : View ν)

mutual

/-- Reads a datum of a shape. -/
def read? : Shape → ν → Option Datum
  | .text, x => .text <$> v.text? x
  | .number bound, x => .number <$> (v.number? x).filter (· < bound)
  | .flag, x => .flag <$> v.flag? x
  | .choice names, x => .choice <$> (v.choice? x).filter names.contains
  | .option s, x => do
    match ← v.option? x with
    | none => return .absent
    | some y => .present <$> read? s y
  | .list s, x => do .list <$> (← v.list? x).mapM (read? s)
  | .struct _ fields, x => do
    .struct <$> readFields? fields (← v.struct? (fields.map Prod.fst) x)

/-- Reads the fields of a structure. -/
def readFields? : Layout → List (String × ν) → Option (List (String × Datum))
  | [], _ => some []
  | (name, s, default) :: rest, entries => do
    let d ←
      match entries.lookup name with
      | some x => read? s x
      | none => default
    return (name, d) :: (← readFields? rest entries)

end

end View

end TrackPlan
