/-!
# Data for documents

A datum is what a document holds, whatever the format: texts, numbers, choices, lists and structures
of named fields.
-/

namespace TrackPlan

/-- A piece of structured data. -/
inductive Datum where
  | text (s : String)
  | number (n : Nat)
  | flag (b : Bool)
  /-- One of several named alternatives. -/
  | choice (name : String)
  /-- An optional datum that is not there. -/
  | absent
  /-- An optional datum that is there. -/
  | present (d : Datum)
  | list (items : List Datum)
  /-- Named fields, in order. -/
  | struct (fields : List (String × Datum))
  deriving Repr

namespace Datum

variable {α : Type}

/-- An optional datum. -/
def ofOption (f : α → Datum) : Option α → Datum
  | none => absent
  | some a => present (f a)

/-- A list of data. -/
def ofList (f : α → Datum) (xs : List α) : Datum := list (xs.map f)

/-- The number that a datum is. -/
def number? : Datum → Option Nat
  | number n => some n
  | _ => none

/-- The alternative that a datum is. -/
def choice? : Datum → Option String
  | choice name => some name
  | _ => none

/-- What an optional datum holds. -/
def toOption? (f : Datum → Option α) : Datum → Option (Option α)
  | absent => some none
  | present d => some <$> f d
  | _ => none

/-- What a list of data holds. -/
def toList? (f : Datum → Option α) : Datum → Option (List α)
  | list ds => ds.mapM f
  | _ => none

end Datum

end TrackPlan
