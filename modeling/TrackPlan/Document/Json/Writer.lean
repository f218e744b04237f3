import TrackPlan.Document.Datum
import TrackPlan.Text.Word

/-!
# Writing JSON

Lists and objects are spread over lines, indented by two blanks a level. An optional datum is the
datum or `null`, and an alternative is the text of its name.
-/

namespace TrackPlan.Json

/-- How a character stands in a string: quotes and backslashes are escaped, and so are the
characters below U+0020. -/
def escape (c : Char) : List Char :=
  match c with
  | '"' => ['\\', '"']
  | '\\' => ['\\', '\\']
  | '\x08' => ['\\', 'b']
  | '\x0c' => ['\\', 'f']
  | '\n' => ['\\', 'n']
  | '\r' => ['\\', 'r']
  | '\t' => ['\\', 't']
  | c =>
    if c.toNat < 0x20 then
      ['\\', 'u', '0', '0', Nat.digitChar (c.toNat / 16), Nat.digitChar (c.toNat % 16)]
    else [c]

/-- A string in quotes. -/
def quote (s : String) : List Char := '"' :: s.toList.flatMap escape ++ ['"']

/-- A new line at a level of indentation. -/
def newline (level : Nat) : List Char := '\n' :: List.replicate (2 * level) ' '

mutual

/-- A datum that begins at a level of indentation. -/
def write (level : Nat) : Datum → List Char
  | .text s => quote s
  | .number n => Text.ofNat n
  | .flag b => (if b then "true" else "false").toList
  | .choice name => quote name
  | .absent => "null".toList
  | .present d => write level d
  | .list [] => ['[', ']']
  | .list (d :: ds) =>
    '[' :: newline (level + 1) ++ write (level + 1) d ++ writeItems (level + 1) ds ++
      newline level ++ [']']
  | .struct [] => ['\x7b', '\x7d']
  | .struct ((name, d) :: fs) =>
    '\x7b' :: newline (level + 1) ++ quote name ++ [':', ' '] ++ write (level + 1) d ++
      writeFields (level + 1) fs ++ newline level ++ ['\x7d']

/-- The items after the first. -/
def writeItems (level : Nat) : List Datum → List Char
  | [] => []
  | d :: ds => ',' :: newline level ++ write level d ++ writeItems level ds

/-- The fields after the first. -/
def writeFields (level : Nat) : List (String × Datum) → List Char
  | [] => []
  | (name, d) :: fs =>
    ',' :: newline level ++ quote name ++ [':', ' '] ++ write level d ++ writeFields level fs

end

/-- The JSON text of a datum. -/
def render (d : Datum) : List Char := write 0 d

end TrackPlan.Json
