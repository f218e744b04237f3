import TrackPlan.Document.View

/-!
# TOML values

The syntax tree of a TOML text, and how it is read as data.
-/

namespace TrackPlan

/-- How a table has come about. -/
inductive TableOrigin where
  /-- Named by a header of its own, or the root. -/
  | header
  /-- Passed through by a header of a table inside it. -/
  | implied
  /-- Passed through by a dotted key. -/
  | dotted
  /-- Written in braces. -/
  | inline
  deriving DecidableEq, Repr

/-- A TOML value. -/
inductive Toml where
  | text (s : String)
  | integer (i : Int)
  | float
  | bool (b : Bool)
  | datetime
  | array (items : List Toml)
  | table (origin : TableOrigin) (entries : List (String × Toml))
  /-- An array of tables with headers of their own, the last one first. -/
  | tables (elements : List (List (String × Toml)))
  deriving Repr

namespace Toml

/-- The items of an array of either sort. -/
def items? : Toml → Option (List Toml)
  | array xs => some xs
  | tables elements => some (elements.reverse.map (table .header))
  | _ => none

/-- Whether the value has nothing in it. -/
def isHollow : Toml → Bool
  | array [] | table _ [] | tables [] => true
  | _ => false

/-- TOML values as data. A structure may also be an array of its fields in order, or a time, which
has none of them; an alternative may also be a table that holds its name alone, with nothing in
it. -/
def view : View Toml where
  text?
    | text s => some s
    | _ => none
  number?
    | integer (.ofNat n) => some n
    | _ => none
  flag?
    | bool b => some b
    | _ => none
  choice?
    | text s => some s
    | table _ [(name, x)] => if x.isHollow then some name else none
    | _ => none
  option? x := some (some x)
  list? := items?
  struct? fields
    | table _ entries => View.select fields entries
    | datetime => some []
    | x => (items? x).map fields.zip

end Toml

end TrackPlan
