import TrackPlan.Document.Toml.Assembly
import TrackPlan.Document.Toml.Number

/-!
# Reading TOML

The reader takes the texts of TOML 1.0. A byte order mark at the head is passed over.
-/

namespace TrackPlan.Toml

open Text (hexValue?)

/-- Characters that may stand in comments and, quotes apart, in texts. -/
def isPrintable (c : Char) : Bool := c == '\t' || (0x20 ≤ c.toNat && c.toNat != 0x7F)

/-- The text after any blanks of the line. -/
def blanks (cs : List Char) : List Char := cs.dropWhile fun c => c == ' ' || c == '\t'

/-- The text after a line end. -/
def newline? : List Char → Option (List Char)
  | '\n' :: rest => some rest
  | '\r' :: '\n' :: rest => some rest
  | _ => none

/-- The text after any blanks, comments and line ends. -/
def spaceFrom : (inComment : Bool) → List Char → List Char
  | _, [] => []
  | _, '\n' :: rest => spaceFrom false rest
  | _, '\r' :: '\n' :: rest => spaceFrom false rest
  | true, c :: rest => if isPrintable c then spaceFrom true rest else c :: rest
  | false, '#' :: rest => spaceFrom true rest
  | false, c :: rest => if c = ' ' ∨ c = '\t' then spaceFrom false rest else c :: rest

/-- The text after any blanks, comments and line ends. -/
def space : List Char → List Char := spaceFrom false

/-- The text after what may follow on the line of a statement, its end included. -/
def lineEnd? (cs : List Char) : Option (List Char) :=
  let rest :=
    match blanks cs with
    | '#' :: rest => rest.dropWhile isPrintable
    | rest => rest
  if rest.isEmpty then some [] else newline? rest

/-- The number of hexadecimal digits, all of `cs`. -/
def hexNumber? (cs : List Char) : Option Nat :=
  cs.foldlM (fun n c => do return n * 16 + (← hexValue? c)) 0

/-- The character of an escape of `count` hexadecimal digits, and what follows. -/
def scalar? (count : Nat) (cs : List Char) : Option (Char × List Char) := do
  let digits := cs.take count
  let n ← hexNumber? digits
  if digits.length = count ∧ n.isValidChar then return (Char.ofNat n, cs.drop count) else none

/-- The character of an escape, after its backslash, and what follows. -/
def escaped? : List Char → Option (Char × List Char)
  | 'b' :: rest => some ('\x08', rest)
  | 't' :: rest => some ('\t', rest)
  | 'n' :: rest => some ('\n', rest)
  | 'f' :: rest => some ('\x0c', rest)
  | 'r' :: rest => some ('\r', rest)
  | '"' :: rest => some ('"', rest)
  | '\\' :: rest => some ('\\', rest)
  | 'u' :: rest => scalar? 4 rest
  | 'U' :: rest => scalar? 8 rest
  | _ => none

/-- What stands in a text between quotes of one line, up to the closing one, and what follows. In
double quotes (`basic`) a backslash escapes a quote. -/
def lineBody (basic : Bool) : List Char → Option (List Char × List Char)
  | [] => none
  | '\\' :: d :: rest =>
    if basic then (lineBody basic rest).map fun (body, rest) => ('\\' :: d :: body, rest)
    else (lineBody basic (d :: rest)).map fun (body, rest) => ('\\' :: body, rest)
  | c :: rest =>
    if c = (if basic then '"' else '\'') then some ([], rest)
    else (lineBody basic rest).map fun (body, rest) => (c :: body, rest)

/-- As `lineBody`, between triple quotes. Up to two quotes may stand before the closing three. -/
def linesBody (basic : Bool) : List Char → Option (List Char × List Char)
  | [] => none
  | '\\' :: d :: rest =>
    if basic then (linesBody basic rest).map fun (body, rest) => ('\\' :: d :: body, rest)
    else (linesBody basic (d :: rest)).map fun (body, rest) => ('\\' :: body, rest)
  | c :: rest =>
    let quote := if basic then '"' else '\''
    let quotes := ((c :: rest).takeWhile (· == quote)).length
    if 3 ≤ quotes then
      if quotes ≤ 5 then some (List.replicate (quotes - 3) quote, (c :: rest).drop quotes) else none
    else (linesBody basic rest).map fun (body, rest) => (c :: body, rest)

/-- The text after any blanks and line ends; a carriage return is part of a line end only. -/
def afterGap : List Char → List Char
  | [] => []
  | '\r' :: '\n' :: rest => afterGap rest
  | c :: rest => if c = ' ' ∨ c = '\t' ∨ c = '\n' then afterGap rest else c :: rest

/-- The text after a backslash that ends a line: blanks and at least one line end are passed. -/
def continuation? (cs : List Char) : Option (List Char) := afterGap <$> newline? (blanks cs)

/-- The characters that the body of a text stands for. Several lines (`multiline`) are parted by
line feeds. -/
def unescapeWithin (basic multiline : Bool) : (fuel : Nat) → List Char → Option (List Char)
  | 0, _ => none
  | _ + 1, [] => some []
  | fuel + 1, c :: rest =>
    match (if multiline then newline? (c :: rest) else none) with
    | some rest => ('\n' :: ·) <$> unescapeWithin basic multiline fuel rest
    | none =>
      if basic ∧ c = '\\' then
        match (if multiline then continuation? rest else none) with
        | some rest => unescapeWithin basic multiline fuel rest
        | none => do
          let (c, rest) ← escaped? rest
          return c :: (← unescapeWithin basic multiline fuel rest)
      else if isPrintable c then (c :: ·) <$> unescapeWithin basic multiline fuel rest
      else none

/-- The characters that the body of a text stands for. Each step takes a character. -/
def unescape (basic multiline : Bool) (body : List Char) : Option (List Char) :=
  unescapeWithin basic multiline (body.length + 1) body

/-- A text on one line after its opening quote, and what follows. -/
def lineText? (basic : Bool) (cs : List Char) : Option (String × List Char) := do
  let (body, rest) ← lineBody basic cs
  return (String.ofList (← unescape basic false body), rest)

/-- A text in triple quotes after the opening ones, and what follows. A line end just after them is
passed over. -/
def linesText? (basic : Bool) (cs : List Char) : Option (String × List Char) := do
  let (body, rest) ← linesBody basic ((newline? cs).getD cs)
  return (String.ofList (← unescape basic true body), rest)

/-- A text at the start of `cs`, and what follows. -/
def quoted? (cs : List Char) : Option (String × List Char) :=
  match cs with
  | '"' :: '"' :: '"' :: rest => linesText? true rest
  | '\'' :: '\'' :: '\'' :: rest => linesText? false rest
  | '"' :: rest => lineText? true rest
  | '\'' :: rest => lineText? false rest
  | _ => none

/-- Characters of a key without quotes. -/
def isBareKey (c : Char) : Bool := c.isAlphanum || c == '_' || c == '-'

/-- One part of a key, and what follows. -/
def keyPart? (cs : List Char) : Option (String × List Char) :=
  match cs with
  | '"' :: rest => lineText? true rest
  | '\'' :: rest => lineText? false rest
  | cs =>
    match cs.takeWhile isBareKey with
    | [] => none
    | name => some (String.ofList name, cs.dropWhile isBareKey)

/-- One or more parts of a key with dots between them, and what follows; blanks around a part do not
count. -/
def keyParts? : (fuel : Nat) → List Char → Option (List String × List Char)
  | 0, _ => none
  | fuel + 1, cs => do
    let (part, rest) ← keyPart? (blanks cs)
    match blanks rest with
    | '.' :: rest =>
      let (parts, rest) ← keyParts? fuel rest
      return (part :: parts, rest)
    | rest => return ([part], rest)

/-- How deep arrays and tables in braces may lie in each other, and the most parts of a key. -/
def maxDepth : Nat := 79

/-- A key, and what follows. -/
def key? (fuel : Nat) (cs : List Char) : Option (List String × List Char) :=
  (keyParts? fuel cs).filter fun (parts, _) => parts.length ≤ maxDepth

/-- The items of an array up to its closing bracket; there may be a comma after the last. -/
def items (item : List Char → Option (Toml × List Char)) :
    (fuel : Nat) → List Char → Option (List Toml × List Char)
  | 0, _ => none
  | _ + 1, ']' :: rest => some ([], rest)
  | fuel + 1, cs => do
    let (x, rest) ← item cs
    match space rest with
    | ',' :: rest =>
      let (xs, rest) ← items item fuel (space rest)
      return (x :: xs, rest)
    | ']' :: rest => return ([x], rest)
    | _ => none

/-- The entries of a table in braces, at least one, up to its closing brace. -/
def inlineEntries (item : List Char → Option (Toml × List Char)) :
    (fuel : Nat) → List Char → Option (List (List String × Toml) × List Char)
  | 0, _ => none
  | fuel + 1, cs => do
    let (keys, rest) ← key? (fuel + 1) cs
    let '=' :: rest := rest | none
    let (x, rest) ← item (blanks rest)
    match blanks rest with
    | ',' :: rest =>
      let (es, rest) ← inlineEntries item fuel rest
      return ((keys, x) :: es, rest)
    | '\x7d' :: rest => return ([(keys, x)], rest)
    | _ => none

/-- A value at the start of a text, and what follows. No sequence in it is longer than `size`, and
`room` is how much deeper arrays and tables in braces may lie. -/
def value (size : Nat) : (room : Nat) → List Char → Option (Toml × List Char)
  | 0, '[' :: _ | 0, '\x7b' :: _ => none
  | room + 1, '[' :: rest => do
    let (xs, rest) ← items (value size room) size (space rest)
    return (.array xs, rest)
  | room + 1, '\x7b' :: rest =>
    match blanks rest with
    | '\x7d' :: rest => some (.table .inline [], rest)
    | rest => do
      let (es, rest) ← inlineEntries (value size room) size rest
      return (← inlineTable es, rest)
  | _, cs =>
    match cs with
    | '"' :: _ | '\'' :: _ => (quoted? cs).map fun (s, rest) => (.text s, rest)
    | 't' :: _ => ("true".toList.isPrefixOf? cs).map (.bool true, ·)
    | 'f' :: _ => ("false".toList.isPrefixOf? cs).map (.bool false, ·)
    | cs => number? cs

/-- A statement at the start of a text, which has no blanks before it, and what follows. -/
def statement? (size : Nat) (cs : List Char) : Option (Statement × List Char) :=
  match cs with
  | '[' :: '[' :: rest => do
    let (keys, rest) ← key? size rest
    let ']' :: ']' :: rest := rest | none
    return (.element keys, rest)
  | '[' :: rest => do
    let (keys, rest) ← key? size rest
    let ']' :: rest := rest | none
    return (.header keys, rest)
  | cs => do
    let (keys, rest) ← key? size cs
    let '=' :: rest := rest | none
    let (x, rest) ← value size maxDepth (blanks rest)
    return (.entry keys x, rest)

/-- The statements of a text, each on a line of its own. -/
def statements (size : Nat) : (fuel : Nat) → List Char → Option (List Statement)
  | 0, _ => none
  | fuel + 1, cs =>
    match space cs with
    | [] => some []
    | cs => do
      let (s, rest) ← statement? size cs
      return s :: (← statements size fuel (← lineEnd? rest))

/-- The text without a byte order mark. -/
def withoutMark : List Char → List Char
  | '\uFEFF' :: rest => rest
  | cs => cs

/-- Reads a whole TOML text. A part of a key, an item and a statement each take a character at
least, so the length of the text is fuel enough. -/
def parse (cs : List Char) : Option Toml := do
  let cs := withoutMark cs
  let size := cs.length + 1
  assemble (← statements size size cs)

/-- Reads a whole TOML text as a datum of a shape. -/
def read? (s : Shape) (cs : List Char) : Option Datum := do view.read? s (← parse cs)

end TrackPlan.Toml
