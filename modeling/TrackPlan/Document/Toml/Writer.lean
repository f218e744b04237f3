import TrackPlan.Document.Datum
import TrackPlan.Text.Word

/-!
# Writing TOML

A structure's plain fields come first, one a line, then its tables: a structure under a header of
its own, a list of structures under one header for each. A text is quoted in the plainest way that
can hold it.
-/

namespace TrackPlan.Toml

/-- A way to quote a text: the mark at both ends, whether characters are escaped in it, and how many
quotes may stand in a row unescaped. -/
structure Quoting where
  mark : String
  escapes : Bool
  /-- How many quotes may stand in a row. -/
  quotes : Nat
  /-- Whether the text may run over several lines. -/
  multiline : Bool
  deriving DecidableEq, Repr

/-- `"…"` -/
def Quoting.basic : Quoting := ⟨"\"", true, 0, false⟩

/-- `'…'` -/
def Quoting.literal : Quoting := ⟨"'", false, 0, false⟩

/-- `"""…"""` -/
def Quoting.basicLines : Quoting := ⟨"\"\"\"", true, 2, true⟩

/-- `'''…'''` -/
def Quoting.literalLines : Quoting := ⟨"'''", false, 2, true⟩

/-- Control characters, other than tabs and line feeds. -/
def isControl (c : Char) : Bool :=
  (c.toNat < 0x20 && c != '\t' && c != '\n') || c.toNat == 0x7F

/-- The length of the longest run of a character; `current` have been seen just before. -/
def longestRun (c : Char) : (current : Nat) → List Char → Nat
  | current, [] => current
  | current, d :: rest =>
    if d = c then longestRun c (current + 1) rest else max current (longestRun c 0 rest)

/-- The first way to quote that holds the text without escapes, or else a way that escapes. -/
def Quoting.choose (cs : List Char) : Quoting :=
  let hasControl := cs.any isControl
  let hasNewline := cs.contains '\n'
  let hasEscape := cs.contains '\\'
  let quotes := longestRun '"' 0 cs
  let apostrophes := longestRun '\'' 0 cs
  if !hasControl && !hasEscape && !hasNewline && quotes == 0 then .basic
  else if !hasControl && !hasNewline && apostrophes == 0 then .literal
  else if !hasControl && !hasEscape && quotes ≤ 2 then .basicLines
  else if !hasControl && apostrophes ≤ 2 then .literalLines
  else if hasNewline then .basicLines
  else .basic

/-- A hexadecimal digit in upper case. -/
def hexDigit (n : Nat) : Char := (Nat.digitChar n).toUpper

/-- Escapes a text; `run` quotes stand just before it unescaped. -/
def escape (q : Quoting) : (run : Nat) → List Char → List Char
  | _, [] => []
  | run, c :: rest =>
    match c with
    | '"' =>
      if run < q.quotes then '"' :: escape q (run + 1) rest else '\\' :: '"' :: escape q 0 rest
    | '\\' => '\\' :: '\\' :: escape q 0 rest
    | '\x08' => '\\' :: 'b' :: escape q 0 rest
    | '\t' => '\\' :: 't' :: escape q 0 rest
    | '\n' => if q.multiline then '\n' :: escape q 0 rest else '\\' :: 'n' :: escape q 0 rest
    | '\x0c' => '\\' :: 'f' :: escape q 0 rest
    | '\r' => '\\' :: 'r' :: escape q 0 rest
    | c =>
      if isControl c then
        '\\' :: 'u' :: '0' :: '0' :: hexDigit (c.toNat / 16) :: hexDigit (c.toNat % 16) ::
          escape q 0 rest
      else c :: escape q 0 rest

/-- A text in quotes. A text of several lines begins on a line of its own. -/
def quote (s : String) : List Char :=
  let cs := s.toList
  let q := Quoting.choose cs
  q.mark.toList ++ (if q.multiline && cs.contains '\n' then ['\n'] else []) ++
    (if q.escapes then escape q 0 cs else cs) ++ q.mark.toList

/-- The largest integer of 64 bits with a sign. -/
def maxInteger : Nat := 9223372036854775807

/-- Whether a datum has a table of its own. -/
def isTable : Datum → Bool
  | .struct _ | .list (_ :: _) => true
  | .present d => isTable d
  | _ => false

/-- What stands for a datum on a line, if it fits one. -/
def plain? : Datum → Option (List Char)
  | .text s | .choice s => some (quote s)
  | .number n => if n ≤ maxInteger then some (Text.ofNat n) else none
  | .flag b => some (if b then "true" else "false").toList
  | .list [] => some ['[', ']']
  | .present d => plain? d
  | _ => none

/-- The plain fields, one a line. -/
def plainFields? : List (String × Datum) → Option (List Char)
  | [] => some []
  | (_, .absent) :: rest => plainFields? rest
  | (name, d) :: rest =>
    if isTable d then plainFields? rest
    else do
      let line ← plain? d
      return name.toList ++ [' ', '=', ' '] ++ line ++ '\n' :: (← plainFields? rest)

/-- A path of keys, which need no quotes. -/
def path (keys : List String) : List Char := (".".intercalate keys).toList

mutual

/-- The tables of a datum at a path. A structure without plain fields needs no header. -/
def table? (keys : List String) : Datum → Option (List Char)
  | .struct fields => do
    let plain ← plainFields? fields
    let header := if plain.isEmpty then [] else '\n' :: '[' :: path keys ++ [']', '\n']
    return header ++ plain ++ (← tables? keys fields)
  | .list items => elements? keys items
  | .present d => table? keys d
  | _ => some []

/-- The tables of fields, in order. -/
def tables? (keys : List String) : List (String × Datum) → Option (List Char)
  | [] => some []
  | (name, d) :: rest => do
    return (← table? (keys ++ [name]) d) ++ (← tables? keys rest)

/-- The structures of a list, each under a header. -/
def elements? (keys : List String) : List Datum → Option (List Char)
  | [] => some []
  | .struct fields :: rest => do
    let header := '\n' :: '[' :: '[' :: path keys ++ [']', ']', '\n']
    return header ++ (← plainFields? fields) ++ (← tables? keys fields) ++ (← elements? keys rest)
  | _ :: _ => none

end

/-- The TOML text of a structure. A number beyond 63 bits cannot be written. -/
def render? : Datum → Option (List Char)
  | .struct fields => do return (← plainFields? fields) ++ (← tables? [] fields)
  | _ => none

end TrackPlan.Toml
