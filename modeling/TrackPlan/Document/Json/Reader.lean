import TrackPlan.Document.View
import TrackPlan.Text.Word

/-!
# Reading JSON

The reader takes exactly the texts of RFC 8259. A string with an unpaired surrogate escape, or with
bytes that are no UTF-8, is read, but has no text; a number with a sign, a fraction or an exponent
is read, but is no whole number.
-/

namespace TrackPlan

/-- A JSON value. -/
inductive Json where
  | null
  | bool (b : Bool)
  /-- A number, with its value if it is written in digits alone. -/
  | number (whole : Option Nat)
  /-- A string, with its text if it has one. -/
  | text (s : Option String)
  | array (items : List Json)
  | object (members : List (Option String × Json))
  deriving Repr

namespace Json

open Text (hexValue?)

/-- Blanks between tokens. -/
def isSpace (c : Char) : Bool := c == ' ' || c == '\t' || c == '\n' || c == '\r'

/-- The text after any blanks. -/
def skip (cs : List Char) : List Char := cs.dropWhile isSpace

/-- The number of four hexadecimal digits. -/
def hex4? (a b c d : Char) : Option Nat := do
  return (((← hexValue? a) * 16 + (← hexValue? b)) * 16 + (← hexValue? c)) * 16 + (← hexValue? d)

/-- A part of a string: a character, or a unit of UTF-16 that is given by its number. -/
inductive Piece where
  | char (c : Char)
  | unit (n : Nat)
  deriving DecidableEq, Repr

/-- The character of a one-letter escape. -/
def shortEscape? : Char → Option Char
  | '"' => some '"'
  | '\\' => some '\\'
  | '/' => some '/'
  | 'b' => some '\x08'
  | 'f' => some '\x0c'
  | 'n' => some '\n'
  | 'r' => some '\r'
  | 't' => some '\t'
  | _ => none

/-- The pieces of a string up to its closing quote, and what follows. -/
def pieces : List Char → Option (List Piece × List Char)
  | [] => none
  | '"' :: rest => some ([], rest)
  | '\\' :: 'u' :: a :: b :: c :: d :: rest => do
    let n ← hex4? a b c d
    let (ps, rest) ← pieces rest
    return (.unit n :: ps, rest)
  | '\\' :: e :: rest => do
    let c ← shortEscape? e
    let (ps, rest) ← pieces rest
    return (.char c :: ps, rest)
  | c :: rest =>
    if c.toNat < 0x20 ∨ c = '\\' then none
    else do
      let (ps, rest) ← pieces rest
      return (.char c :: ps, rest)

/-- The text of pieces, unless a surrogate is without its partner. -/
def assemble : List Piece → Option (List Char)
  | [] => some []
  | .char c :: ps => (c :: ·) <$> assemble ps
  | .unit n :: ps =>
    if 0xD800 ≤ n ∧ n < 0xDC00 then
      match ps with
      | .unit m :: ps =>
        if 0xDC00 ≤ m ∧ m < 0xE000 then
          (Char.ofNat (0x10000 + (n - 0xD800) * 0x400 + (m - 0xDC00)) :: ·) <$> assemble ps
        else none
      | _ => none
    else if 0xDC00 ≤ n ∧ n < 0xE000 then none
    else (Char.ofNat n :: ·) <$> assemble ps

/-- A string after its opening quote. -/
def string (cs : List Char) : Option (Option String × List Char) := do
  let (ps, rest) ← pieces cs
  return (String.ofList <$> assemble ps, rest)

/-- Digits, at least one, and what follows. -/
def digits (cs : List Char) : Option (List Char × List Char) :=
  match cs.takeWhile Char.isDigit with
  | [] => none
  | ds => some (ds, cs.dropWhile Char.isDigit)

/-- The fraction of a number, if there is one: whether there is, and what follows. -/
def fraction : List Char → Option (Bool × List Char)
  | '.' :: rest => do
    let (_, rest) ← digits rest
    return (true, rest)
  | cs => some (false, cs)

/-- The digits of an exponent, after its letter. -/
def exponentDigits : List Char → Option (Bool × List Char)
  | '+' :: rest | '-' :: rest | rest => do
    let (_, rest) ← digits rest
    return (true, rest)

/-- The exponent of a number, if there is one: whether there is, and what follows. -/
def exponent : List Char → Option (Bool × List Char)
  | 'e' :: rest | 'E' :: rest => exponentDigits rest
  | cs => some (false, cs)

/-- A number without its sign. More than one digit may not begin with a zero. -/
def unsigned (negative : Bool) (cs : List Char) : Option (Json × List Char) := do
  let (ds, rest) ← digits cs
  if 1 < ds.length ∧ ds.head? = some '0' then failure
  let (hasFraction, rest) ← fraction rest
  let (hasExponent, rest) ← exponent rest
  let whole := if negative || hasFraction || hasExponent then none else some (Text.decimal ds)
  return (.number whole, rest)

/-- A word that stands for a value. -/
def literal (word : String) (value : Json) (cs : List Char) : Option (Json × List Char) :=
  (word.toList.isPrefixOf? cs).map (value, ·)

mutual

/-- A value at the start of a text, which has no blanks before it. -/
def value : (fuel : Nat) → List Char → Option (Json × List Char)
  | 0, _ => none
  | fuel + 1, cs =>
    match cs with
    | '"' :: rest => do
      let (s, rest) ← string rest
      return (.text s, rest)
    | '[' :: rest =>
      match skip rest with
      | ']' :: rest => some (.array [], rest)
      | rest => do
        let (items, rest) ← items fuel rest
        return (.array items, rest)
    | '\x7b' :: rest =>
      match skip rest with
      | '\x7d' :: rest => some (.object [], rest)
      | rest => do
        let (members, rest) ← members fuel rest
        return (.object members, rest)
    | 'n' :: _ => literal "null" .null cs
    | 't' :: _ => literal "true" (.bool true) cs
    | 'f' :: _ => literal "false" (.bool false) cs
    | '-' :: rest => unsigned true rest
    | cs => unsigned false cs

/-- The items of an array, at least one, up to its closing bracket. -/
def items : (fuel : Nat) → List Char → Option (List Json × List Char)
  | 0, _ => none
  | fuel + 1, cs => do
    let (item, rest) ← value fuel cs
    match skip rest with
    | ']' :: rest => return ([item], rest)
    | ',' :: rest =>
      let (more, rest) ← items fuel (skip rest)
      return (item :: more, rest)
    | _ => none

/-- The members of an object, at least one, up to its closing brace. -/
def members : (fuel : Nat) → List Char → Option (List (Option String × Json) × List Char)
  | 0, _ => none
  | fuel + 1, cs => do
    let '"' :: rest := cs | none
    let (key, rest) ← string rest
    let ':' :: rest := skip rest | none
    let (item, rest) ← value fuel (skip rest)
    match skip rest with
    | '\x7d' :: rest => return ([(key, item)], rest)
    | ',' :: rest =>
      let (more, rest) ← members fuel (skip rest)
      return ((key, item) :: more, rest)
    | _ => none

end

/-- Reads a whole JSON text. Every step takes a character or moves on to a part, so twice the length
of the text is fuel enough. -/
def parse (cs : List Char) : Option Json := do
  let (x, rest) ← value (2 * cs.length + 2) (skip cs)
  if (skip rest).isEmpty then return x else none

/-- The characters of bytes from a position on. A byte that belongs to no character becomes a
replacement character and the second half of a surrogate pair, which stays without the first half
whatever is around it. -/
def mend (bytes : ByteArray) : (fuel i : Nat) → List Char
  | 0, _ => []
  | fuel + 1, i =>
    if i < bytes.size then
      match bytes.utf8DecodeChar? i with
      | some c => c :: mend bytes fuel (i + c.utf8Size)
      | none => "\uFFFD\\udc00".toList ++ mend bytes fuel (i + 1)
    else []

/-- The characters of a JSON text in bytes. Bytes that are no UTF-8 may stand in a string, which
then has no text; what they are taken for is an error anywhere else, even after a backslash. -/
def charsOf (bytes : ByteArray) : List Char :=
  match String.fromUTF8? bytes with
  | some s => s.toList
  | none => mend bytes bytes.size 0

/-- The members of an object, if all of their names have a text. -/
def namedMembers (ms : List (Option String × Json)) : Option (List (String × Json)) :=
  ms.mapM fun (key?, x) => key?.map (·, x)

/-- JSON values as data. A structure may also be an array of its fields in order, from which fields
may be missing at the end; an alternative may also be an object of its name and `null`. -/
def view : View Json where
  text?
    | .text s => s
    | _ => none
  number?
    | .number n => n
    | _ => none
  flag?
    | .bool b => some b
    | _ => none
  choice?
    | .text s => s
    | .object [(key, .null)] => key
    | _ => none
  option?
    | .null => some none
    | x => some (some x)
  list?
    | .array xs => some xs
    | _ => none
  struct? fields
    | .object ms => (namedMembers ms).bind (View.select fields)
    | .array xs => if xs.length ≤ fields.length then some (fields.zip xs) else none
    | _ => none

/-- Reads a whole JSON text as a datum of a shape. -/
def read? (s : Shape) (cs : List Char) : Option Datum := do view.read? s (← parse cs)

end Json

end TrackPlan
