import TrackPlan.Document.Ron.Token
import TrackPlan.Document.Shape

/-!
# Reading RON

The reader takes the texts of RON 0.8: a value, with comments anywhere between tokens, and before it
attributes that turn on extensions. What a text means depends on the shape that is expected of it;
`Some5`, for one, is a word unless an optional datum is expected. Values in fields that the shape
does not have are passed over, and read more freely.

A value lies at a depth, which may be 128 at most. It grows by one with every structure, list and
map that is opened, with every item and field in them, and with every optional datum. The readers
count down: `room` is how much deeper they may go.
-/

namespace TrackPlan.Ron

open Text (isWordChar)

/-- What a text turns on in its attributes, and what bounds its sequences. -/
structure Mode where
  /-- An optional datum may be written without parentheses, and without `Some`. -/
  implicitSome : Bool := false
  /-- No sequence in the text has more items than this. -/
  size : Nat

/-- What room is left one level deeper. -/
def deeper? : (room : Nat) → Option Nat
  | 0 => none
  | room + 1 => some room

/-- Items after an opening mark, up to the closing one, with a comma between two of them and perhaps
one at the end. -/
def items {α : Type} (mark : Char) (item : List Char → Option (α × List Char)) :
    (fuel : Nat) → List Char → Option (List α × List Char)
  | 0, _ => none
  | fuel + 1, cs => do
    let c :: rest ← skip cs | none
    if c = mark then return ([], rest)
    let (x, rest) ← item (c :: rest)
    match ← skip rest with
    | ',' :: rest =>
      let (xs, rest) ← items mark item fuel rest
      return (x :: xs, rest)
    | c :: rest => if c = mark then return ([x], rest) else none
    | [] => none

/-- The text after a comma, which may be missing, and a closing parenthesis. -/
def closing? (cs : List Char) : Option (List Char) := do
  let rest ←
    match ← skip cs with
    | ',' :: rest => skip rest
    | rest => some rest
  let ')' :: rest := rest | none
  return rest

/-- The name of a field and the text of its value. -/
def fieldName? (cs : List Char) : Option (String × List Char) := do
  let (_, name, rest) ← word? cs
  let ':' :: rest ← skip rest | none
  return (name, ← skip rest)

/-- Whether a word stands for a value by itself, so that no parentheses follow it. -/
def isConstant (name : String) : Bool := ["true", "false", "None", "inf", "NaN"].contains name

/-- How a value begins of which nothing is expected. -/
inductive Opening where
  /-- It has no parts and is over. -/
  | leaf (rest : List Char)
  /-- An optional datum, after `Some`. -/
  | option (rest : List Char)
  /-- Fields or items in parentheses, after the opening one. -/
  | enclosed (rest : List Char)
  | list (rest : List Char)
  | map (rest : List Char)

/-- How the value at the start of a text begins. -/
def opening? (cs : List Char) : Option Opening :=
  match word? cs with
  | some (raw, name, rest) =>
    if !raw && isConstant name then some (.leaf rest)
    else do
      match raw || name != "Some", ← skip rest with
      | true, '(' :: rest => return .enclosed rest
      | true, rest => return .leaf rest
      | false, rest => return .option rest
  | none =>
    match cs with
    | '(' :: ')' :: rest => some (.leaf rest)
    | '(' :: rest => some (.enclosed rest)
    | '[' :: rest => some (.list rest)
    | '\x7b' :: rest => some (.map rest)
    | '"' :: _ | 'r' :: _ => (string? cs).map fun (_, rest) => .leaf rest
    | '\'' :: rest => .leaf <$> afterChar? rest
    | cs => .leaf <$> afterNumber? cs

mutual

/-- The text after a value of which nothing is expected. -/
def after? (m : Mode) : (room : Nat) → List Char → Option (List Char)
  | 0, cs => do
    let .leaf rest ← opening? cs | none
    return rest
  | room + 1, cs => do
    match ← opening? cs with
    | .leaf rest => return rest
    | .option ('(' :: rest) => do closing? (← after? m room (← skip rest))
    | .option rest => if m.implicitSome then after? m room rest else none
    | .list rest => return (← items ']' (afterItem? m room) m.size rest).2
    | .map rest => return (← items '\x7d' (afterPair? m room) m.size rest).2
    | .enclosed rest =>
      let item :=
        if (fieldName? (← skip rest)).isSome then afterField? m room else afterItem? m room
      return (← items ')' item m.size rest).2

/-- An item of which nothing is expected, and what follows. -/
def afterItem? (m : Mode) : (room : Nat) → List Char → Option (Unit × List Char)
  | 0, _ => none
  | room + 1, cs => do return ((), ← after? m room cs)

/-- A field of which nothing is expected, and what follows. -/
def afterField? (m : Mode) : (room : Nat) → List Char → Option (Unit × List Char)
  | 0, _ => none
  | room + 1, cs => do
    let (_, rest) ← fieldName? cs
    return ((), ← after? m room rest)

/-- An entry of a map, and what follows. -/
def afterPair? (m : Mode) : (room : Nat) → List Char → Option (Unit × List Char)
  | 0, _ => none
  | room + 1, cs => do
    let ':' :: rest ← skip (← after? m room cs) | none
    return ((), ← after? m room (← skip rest))

end

/-- The text in the parentheses of a structure, which may have its name before them. -/
def body? (name : String) (cs : List Char) : Option (List Char) := do
  let rest ←
    match word? cs with
    | some (_, other, rest) => if other = name then skip rest else none
    | none => some cs
  let '(' :: rest := rest | none
  return rest

mutual

/-- A datum of a shape, and what follows. -/
def datum? (m : Mode) : Shape → (room : Nat) → List Char → Option (Datum × List Char)
  | .text, _, cs => (string? cs).map fun (s, rest) => (.text s, rest)
  | .number bound, _, cs => (integer? bound cs).map fun (n, rest) => (.number n, rest)
  | .flag, _, cs =>
    match word? cs with
    | some (false, "true", rest) => some (.flag true, rest)
    | some (false, "false", rest) => some (.flag false, rest)
    | _ => none
  | .choice names, _, cs => do
    let (_, name, rest) ← word? cs
    if names.contains name then return (.choice name, rest) else none
  | .option s, room, cs =>
    match "None".toList.isPrefixOf? cs with
    | some rest => some (.absent, rest)
    | none => do
      let room ← deeper? room
      let (hasSome, rest) ←
        match "Some".toList.isPrefixOf? cs with
        | some rest => (true, ·) <$> skip rest
        | none => some (false, cs)
      match hasSome, rest with
      | true, '(' :: rest =>
        let (d, rest) ← datum? m s room (← skip rest)
        return (.present d, ← closing? rest)
      | _, rest =>
        if m.implicitSome then
          let (d, rest) ← datum? m s room rest
          return (.present d, rest)
        else none
  | .list s, room, cs => do
    let '[' :: rest := cs | none
    let room ← deeper? room
    let (ds, rest) ← items ']' (fun cs => do datum? m s (← deeper? room) cs) m.size rest
    return (.list ds, rest)
  | .struct name fields, room, cs => do
    let room ← deeper? room
    let item (cs : List Char) : Option ((String × Option Datum) × List Char) := do
      let (name, rest) ← fieldName? cs
      fieldDatum? m fields name (← deeper? room) rest
    let (entries, rest) ← items ')' item m.size (← body? name cs)
    let known := entries.filterMap fun (name, d?) => d?.map (name, ·)
    return (.struct (← Layout.complete fields known), rest)

/-- The datum in a field with a name, which is passed over if the structure has no such field, and
what follows. -/
def fieldDatum? (m : Mode) : Layout → (name : String) → (room : Nat) → List Char →
    Option ((String × Option Datum) × List Char)
  | [], name, room, cs => do return ((name, none), ← after? m room cs)
  | (known, s, _) :: fields, name, room, cs =>
    if known = name then do
      let (d, rest) ← datum? m s room cs
      return ((name, some d), rest)
    else fieldDatum? m fields name room cs

end

/-- Turns on an extension by its name. Two of them make no difference here. -/
def Mode.enable (m : Mode) : String → Option Mode
  | "implicit_some" => some { m with implicitSome := true }
  | "unwrap_newtypes" | "unwrap_variant_newtypes" => some m
  | _ => none

/-- The names in an attribute, at least one, up to its closing marks. -/
def extensionNames : (fuel : Nat) → Mode → List Char → Option (Mode × List Char)
  | 0, _, _ => none
  | fuel + 1, m, cs => do
    let (_, name, rest) ← word? cs
    let m ← m.enable name
    let closing (cs : List Char) : Option (Mode × List Char) := do
      let ')' :: rest := cs | none
      let ']' :: rest ← skip rest | none
      return (m, rest)
    match ← skip rest with
    | ',' :: rest =>
      let rest ← skip rest
      if (rest.head?.map isWordChar).getD false then extensionNames fuel m rest else closing rest
    | rest => closing rest

/-- The attributes at the head of a text, and what follows. -/
def attributes : (fuel : Nat) → Mode → List Char → Option (Mode × List Char)
  | 0, _, _ => none
  | fuel + 1, m, cs => do
    match ← skip cs with
    | '#' :: rest =>
      let '!' :: rest ← skip rest | none
      let '[' :: rest ← skip rest | none
      let rest ← "enable".toList.isPrefixOf? (← skip rest)
      let '(' :: rest ← skip rest | none
      let (m, rest) ← extensionNames fuel m (← skip rest)
      attributes fuel m rest
    | rest => return (m, rest)

/-- How deep a value may lie. -/
def maxDepth : Nat := 128

/-- Reads a whole RON text as a datum of a shape. An item or a name takes a character at least, so
the length of the text is fuel enough. -/
def read? (s : Shape) (cs : List Char) : Option Datum := do
  let size := cs.length + 1
  let (m, rest) ← attributes size { size } cs
  let (d, rest) ← datum? m s maxDepth rest
  if (← skip rest).isEmpty then return d else none

end TrackPlan.Ron
