import TrackPlan.Document.View

/-!
# Data as bytes

A datum is a mark for its sort and then its parts. Numbers are written seven bits a byte, the lowest
first; every byte but the last has its high bit set. A text is the number of its characters and then
their code points.
-/

namespace TrackPlan.Binary

/-- A number, seven bits a byte. Each byte takes bits off the number, so `fuel` of at least its size
is enough. -/
def encodeWithin : (fuel : Nat) → Nat → List UInt8
  | 0, n => [UInt8.ofNat n]
  | fuel + 1, n =>
    if n < 128 then [UInt8.ofNat n]
    else UInt8.ofNat (n % 128 + 128) :: encodeWithin fuel (n / 128)

/-- A number, seven bits a byte. -/
def encodeNat (n : Nat) : List UInt8 := encodeWithin n n

/-- A number, and what follows it. The last byte of a number is not zero unless it is the only
one. -/
def decodeNat : List UInt8 → Option (Nat × List UInt8)
  | [] => none
  | b :: rest =>
    if b.toNat < 128 then some (b.toNat, rest)
    else
      match decodeNat rest with
      | some (0, _) | none => none
      | some (n, rest) => some (b.toNat - 128 + 128 * n, rest)

/-- A text. -/
def encodeText (s : String) : List UInt8 :=
  encodeNat s.toList.length ++ s.toList.flatMap fun c => encodeNat c.toNat

/-- A number of characters, and what follows them. -/
def decodeChars : (count : Nat) → List UInt8 → Option (List Char × List UInt8)
  | 0, bytes => some ([], bytes)
  | count + 1, bytes => do
    let (n, rest) ← decodeNat bytes
    if n.isValidChar then
      let (cs, rest) ← decodeChars count rest
      return (Char.ofNat n :: cs, rest)
    else none

/-- A text, and what follows it. -/
def decodeText (bytes : List UInt8) : Option (String × List UInt8) := do
  let (count, rest) ← decodeNat bytes
  let (cs, rest) ← decodeChars count rest
  return (String.ofList cs, rest)

mutual

/-- The bytes of a datum. -/
def encode : Datum → List UInt8
  | .text s => 0 :: encodeText s
  | .number n => 1 :: encodeNat n
  | .flag false => [2]
  | .flag true => [3]
  | .choice name => 4 :: encodeText name
  | .absent => [5]
  | .present d => 6 :: encode d
  | .list items => 7 :: encodeNat items.length ++ encodeItems items
  | .struct fields => 8 :: encodeNat fields.length ++ encodeFields fields

/-- The bytes of items. -/
def encodeItems : List Datum → List UInt8
  | [] => []
  | d :: ds => encode d ++ encodeItems ds

/-- The bytes of fields. -/
def encodeFields : List (String × Datum) → List UInt8
  | [] => []
  | (name, d) :: fs => encodeText name ++ encode d ++ encodeFields fs

end

mutual

/-- A datum at the start of bytes, and what follows it. -/
def decode : (fuel : Nat) → List UInt8 → Option (Datum × List UInt8)
  | 0, _ => none
  | fuel + 1, bytes =>
    match bytes with
    | 0 :: rest => (decodeText rest).map fun (s, rest) => (.text s, rest)
    | 1 :: rest => (decodeNat rest).map fun (n, rest) => (.number n, rest)
    | 2 :: rest => some (.flag false, rest)
    | 3 :: rest => some (.flag true, rest)
    | 4 :: rest => (decodeText rest).map fun (s, rest) => (.choice s, rest)
    | 5 :: rest => some (.absent, rest)
    | 6 :: rest => (decode fuel rest).map fun (d, rest) => (.present d, rest)
    | 7 :: rest => do
      let (count, rest) ← decodeNat rest
      let (items, rest) ← decodeItems fuel count rest
      return (.list items, rest)
    | 8 :: rest => do
      let (count, rest) ← decodeNat rest
      let (fields, rest) ← decodeFields fuel count rest
      return (.struct fields, rest)
    | _ => none

/-- A number of items, and what follows them. -/
def decodeItems : (fuel count : Nat) → List UInt8 → Option (List Datum × List UInt8)
  | _, 0, bytes => some ([], bytes)
  | 0, _ + 1, _ => none
  | fuel + 1, count + 1, bytes => do
    let (d, rest) ← decode fuel bytes
    let (ds, rest) ← decodeItems fuel count rest
    return (d :: ds, rest)

/-- A number of fields, and what follows them. -/
def decodeFields : (fuel count : Nat) → List UInt8 → Option (List (String × Datum) × List UInt8)
  | _, 0, bytes => some ([], bytes)
  | 0, _ + 1, _ => none
  | fuel + 1, count + 1, bytes => do
    let (name, rest) ← decodeText bytes
    let (d, rest) ← decode fuel rest
    let (fs, rest) ← decodeFields fuel count rest
    return ((name, d) :: fs, rest)

end

/-- The datum that the bytes are, all of them. Each datum takes a byte and each step into a part
takes fuel, so twice the number of bytes is enough. -/
def decodeAll (bytes : List UInt8) : Option Datum :=
  match decode (2 * bytes.length + 2) bytes with
  | some (d, []) => some d
  | _ => none

/-- Data are read as they are. -/
def view : View Datum where
  text?
    | .text s => some s
    | _ => none
  number?
    | .number n => some n
    | _ => none
  flag?
    | .flag b => some b
    | _ => none
  choice?
    | .choice name => some name
    | _ => none
  option?
    | .absent => some none
    | .present d => some (some d)
    | _ => none
  list?
    | .list items => some items
    | _ => none
  struct? names
    | .struct fields => View.select names fields
    | _ => none

/-- Reads a datum of a shape from bytes, all of them. -/
def read? (s : Shape) (bytes : List UInt8) : Option Datum := do view.read? s (← decodeAll bytes)

end TrackPlan.Binary
