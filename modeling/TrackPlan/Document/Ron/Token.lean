import TrackPlan.Text.Word

/-!
# RON tokens

The small pieces of a RON text: blanks and comments, words, numbers, strings and characters. Each
reader takes a piece at the start of a text and gives what follows it.
-/

namespace TrackPlan.Ron

open Text (hexValue? isWordChar)

/-- Blanks between tokens. -/
def isSpace (c : Char) : Bool := c == ' ' || c == '\t' || c == '\n' || c == '\r'

/-- Characters a word begins with. -/
def isWordHead (c : Char) : Bool := c.isAlpha || c == '_'

/-- Characters of a word that is marked as raw. -/
def isRawTail (c : Char) : Bool := isWordChar c || c == '.' || c == '+' || c == '-'

/-- What is being passed over between two tokens. -/
inductive Gap where
  | blank
  /-- A comment up to the end of the line. -/
  | line
  /-- A comment between marks, with `level` more around it. -/
  | block (level : Nat)
  deriving DecidableEq, Repr

/-- The text after a gap, or `none` if a comment in it is not closed. -/
def skipFrom : Gap → List Char → Option (List Char)
  | .blank, '/' :: '/' :: rest => skipFrom .line rest
  | .blank, '/' :: '*' :: rest => skipFrom (.block 0) rest
  | .blank, '/' :: _ => none
  | .blank, c :: rest => if isSpace c then skipFrom .blank rest else some (c :: rest)
  | .line, '\n' :: rest => skipFrom .blank rest
  | .line, _ :: rest => skipFrom .line rest
  | .block level, '/' :: '*' :: rest => skipFrom (.block (level + 1)) rest
  | .block 0, '*' :: '/' :: rest => skipFrom .blank rest
  | .block (level + 1), '*' :: '/' :: rest => skipFrom (.block level) rest
  | .block level, _ :: rest => skipFrom (.block level) rest
  | .blank, [] | .line, [] => some []
  | .block _, [] => none

/-- The text after any blanks and comments, or `none` if a comment is not closed. -/
def skip (cs : List Char) : Option (List Char) := skipFrom .blank cs

/-- A word at the start of a text: whether it is marked as raw, its name, and what follows. -/
def word? : List Char → Option (Bool × String × List Char)
  | 'r' :: '"' :: _ => none
  | 'r' :: '#' :: rest =>
    match rest.takeWhile isRawTail with
    | [] => none
    | name => some (true, String.ofList name, rest.dropWhile isRawTail)
  | c :: rest =>
    if isWordHead c then
      some (false, String.ofList (c :: rest.takeWhile isWordChar), rest.dropWhile isWordChar)
    else none
  | [] => none

/-- The number that digits denote in a base; underscores between them do not count. -/
def digitsIn? (base : Nat) : (value : Nat) → List Char → Option Nat
  | value, [] => some value
  | value, '_' :: rest => digitsIn? base value rest
  | value, c :: rest => do
    let d ← hexValue? c
    if d < base then digitsIn? base (value * base + d) rest else none

/-- Characters that may occur in an integer. -/
def isIntegerChar (c : Char) : Bool := (hexValue? c).isSome || c == '_'

/-- Characters that may occur in a decimal fraction. -/
def isFloatChar (c : Char) : Bool :=
  c.isDigit || c == 'e' || c == 'E' || c == '.' || c == '+' || c == '-' || c == '_'

/-- The base that a number's first characters tell, and the text after them. -/
def base : List Char → Nat × List Char
  | '0' :: 'x' :: rest => (16, rest)
  | '0' :: 'b' :: rest => (2, rest)
  | '0' :: 'o' :: rest => (8, rest)
  | cs => (10, cs)

/-- An integer without a sign below a bound, and what follows. -/
def integer? (bound : Nat) (cs : List Char) : Option (Nat × List Char) := do
  let (base, rest) := base cs
  let ds := rest.takeWhile isIntegerChar
  if ds.isEmpty ∨ ds.head? = some '_' then failure
  let n ← digitsIn? base 0 ds
  if n < bound then return (n, rest.dropWhile isIntegerChar) else failure

/-- Whether the text is an exponent, or nothing at all. -/
def isExponent : List Char → Bool
  | [] => true
  | c :: rest =>
    let ds :=
      match rest with
      | '+' :: ds | '-' :: ds | ds => ds
    (c == 'e' || c == 'E') && !ds.isEmpty && ds.all Char.isDigit

/-- Whether the text is a decimal fraction, with a digit on one side of the point at least. -/
def isFraction (cs : List Char) : Bool :=
  let cs :=
    match cs with
    | '+' :: rest | '-' :: rest | rest => rest
  let whole := cs.takeWhile Char.isDigit
  match cs.dropWhile Char.isDigit with
  | '.' :: rest =>
    let fraction := rest.takeWhile Char.isDigit
    (!whole.isEmpty || !fraction.isEmpty) && isExponent (rest.dropWhile Char.isDigit)
  | rest => !whole.isEmpty && isExponent rest

/-- The text after a decimal fraction. -/
def afterFraction? (cs : List Char) : Option (List Char) :=
  if isFraction (cs.takeWhile isFloatChar) then some (cs.dropWhile isFloatChar) else none

/-- The text after a number without its sign: infinite, undefined, or an integer below a bound. -/
def afterSigned? (bound : Nat) (cs : List Char) : Option (List Char) :=
  match word? cs with
  | some (false, "inf", rest) | some (false, "NaN", rest) => some rest
  | _ => Prod.snd <$> integer? bound cs

/-- The text after a number. Integers have 64 bits, one of them for the sign if there is a sign;
what is no integer may still be a decimal fraction. -/
def afterNumber? (cs : List Char) : Option (List Char) :=
  let unsigned :=
    match cs with
    | '+' :: rest | '-' :: rest => rest
    | rest => rest
  if (unsigned.takeWhile isIntegerChar).length < (unsigned.takeWhile isFloatChar).length then
    afterFraction? cs
  else
    let whole :=
      match cs with
      | '+' :: rest => afterSigned? 9223372036854775808 rest
      | '-' :: rest => afterSigned? 9223372036854775809 rest
      | cs => Prod.snd <$> integer? 18446744073709551616 cs
    whole.or (afterFraction? cs)

/-- The character of an escape in braces, after the opening one; `left` more digits may come. -/
def braced? : (left value : Nat) → List Char → Option (Char × List Char)
  | _, value, '\x7d' :: rest =>
    if value.isValidChar then some (Char.ofNat value, rest) else none
  | left + 1, value, c :: rest => do braced? left (value * 16 + (← hexValue? c)) rest
  | _, _, _ => none

/-- The character of an escape, after its backslash, and what follows. -/
def escaped? : List Char → Option (Char × List Char)
  | '\'' :: rest => some ('\'', rest)
  | '"' :: rest => some ('"', rest)
  | '\\' :: rest => some ('\\', rest)
  | 'n' :: rest => some ('\n', rest)
  | 'r' :: rest => some ('\r', rest)
  | 't' :: rest => some ('\t', rest)
  | '0' :: rest => some ('\x00', rest)
  | 'x' :: a :: b :: rest => do
    return (Char.ofNat ((← hexValue? a) * 16 + (← hexValue? b)), rest)
  | 'u' :: '\x7b' :: c :: rest => do braced? 5 (← hexValue? c) rest
  | _ => none

/-- What stands in a string up to its closing quote, and what follows. -/
def stringBody : List Char → Option (List Char × List Char)
  | [] => none
  | '"' :: rest => some ([], rest)
  | '\\' :: c :: rest => (stringBody rest).map fun (body, rest) => ('\\' :: c :: body, rest)
  | c :: rest => (stringBody rest).map fun (body, rest) => (c :: body, rest)

/-- The characters that the body of a string stands for. -/
def unescapeWithin : (fuel : Nat) → List Char → Option (List Char)
  | 0, _ => none
  | _ + 1, [] => some []
  | fuel + 1, '\\' :: rest => do
    let (c, rest) ← escaped? rest
    return c :: (← unescapeWithin fuel rest)
  | fuel + 1, c :: rest => do return c :: (← unescapeWithin fuel rest)

/-- The characters that the body of a string stands for. Each of them takes a character. -/
def unescape (body : List Char) : Option (List Char) := unescapeWithin (body.length + 1) body

/-- A string after its opening quote, and what follows. -/
def quoted? (cs : List Char) : Option (String × List Char) := do
  let (body, rest) ← stringBody cs
  return (String.ofList (← unescape body), rest)

/-- The characters up to a closing mark, and what follows it. -/
def upTo (mark : List Char) : List Char → Option (List Char × List Char)
  | [] => none
  | c :: cs =>
    match mark.isPrefixOf? (c :: cs) with
    | some rest => some ([], rest)
    | none => (upTo mark cs).map fun (taken, rest) => (c :: taken, rest)

/-- A raw string after its `r`, and what follows: it ends at a quote with as many hash signs as
there are before it. -/
def rawString? (cs : List Char) : Option (String × List Char) :=
  let hashes := cs.takeWhile (· == '#')
  match cs.dropWhile (· == '#') with
  | '"' :: rest => (upTo ('"' :: hashes) rest).map fun (s, rest) => (String.ofList s, rest)
  | _ => none

/-- A string, and what follows. -/
def string? : List Char → Option (String × List Char)
  | '"' :: rest => quoted? rest
  | 'r' :: rest => rawString? rest
  | _ => none

/-- The text after a character that has had its opening quote; a quote itself must be escaped. -/
def afterChar? : List Char → Option (List Char)
  | '\\' :: rest => do
    let (_, '\'' :: rest) ← escaped? rest | none
    return rest
  | '\'' :: _ => none
  | _ :: '\'' :: rest => some rest
  | _ => none

end TrackPlan.Ron
