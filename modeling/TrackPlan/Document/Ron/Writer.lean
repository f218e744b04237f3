import TrackPlan.Document.Datum
import TrackPlan.Text.Unprintable
import TrackPlan.Text.Word

/-!
# Writing RON

Lists and structures are spread over lines, indented by four blanks a level, with a comma after
every item. Structures are written without their names, alternatives as bare words, and an optional
datum as `None` or `Some(…)`.
-/

namespace TrackPlan.Ron

/-- How a character stands in a string: quotes, backslashes and what does not print are escaped. -/
def escape (c : Char) : List Char :=
  match c with
  | '\x00' => ['\\', '0']
  | '\t' => ['\\', 't']
  | '\r' => ['\\', 'r']
  | '\n' => ['\\', 'n']
  | '\'' => ['\\', '\'']
  | '"' => ['\\', '"']
  | '\\' => ['\\', '\\']
  | c =>
    if Text.isUnprintable c then ['\\', 'u', '\x7b'] ++ Nat.toDigits 16 c.toNat ++ ['\x7d'] else [c]

/-- A string in quotes. -/
def quote (s : String) : List Char := '"' :: s.toList.flatMap escape ++ ['"']

/-- The blanks before a line at a level of indentation. -/
def indent (level : Nat) : List Char := List.replicate (4 * level) ' '

mutual

/-- A datum that begins at a level of indentation. -/
def write (level : Nat) : Datum → List Char
  | .text s => quote s
  | .number n => Text.ofNat n
  | .flag b => (if b then "true" else "false").toList
  | .choice name => name.toList
  | .absent => "None".toList
  | .present d => "Some(".toList ++ write level d ++ [')']
  | .list [] => ['[', ']']
  | .list (d :: ds) => '[' :: '\n' :: writeItems (level + 1) (d :: ds) ++ indent level ++ [']']
  | .struct [] => ['(', ')']
  | .struct (f :: fs) => '(' :: '\n' :: writeFields (level + 1) (f :: fs) ++ indent level ++ [')']

/-- Items, each on lines of its own. -/
def writeItems (level : Nat) : List Datum → List Char
  | [] => []
  | d :: ds => indent level ++ write level d ++ [',', '\n'] ++ writeItems level ds

/-- Fields, each on lines of its own. -/
def writeFields (level : Nat) : List (String × Datum) → List Char
  | [] => []
  | (name, d) :: fs =>
    indent level ++ name.toList ++ [':', ' '] ++ write level d ++ [',', '\n'] ++
      writeFields level fs

end

/-- The RON text of a datum. -/
def render (d : Datum) : List Char := write 0 d

end TrackPlan.Ron
