import TrackPlan.Document.Toml.Value
import TrackPlan.Text.Word

/-!
# TOML numbers and times

Integers have 64 bits with a sign. Of a float only its form is kept, and of a time only that it is
one; both must be valid.
-/

namespace TrackPlan.Toml

open Text (hexValue?)

/-- Digits of a base, at least one, with single underscores between digits; also what follows. -/
def digits? (isDigit : Char → Bool) : List Char → Option (List Char × List Char)
  | [] => none
  | c :: rest => if isDigit c then some (go c rest) else none
where
  /-- The digits from `c` on. -/
  go (c : Char) : List Char → List Char × List Char
    | '_' :: d :: rest =>
      if isDigit d then
        let (ds, rest) := go d rest
        (c :: ds, rest)
      else ([c], '_' :: d :: rest)
    | d :: rest =>
      if isDigit d then
        let (ds, rest) := go d rest
        (c :: ds, rest)
      else ([c], d :: rest)
    | [] => ([c], [])

/-- The number of digits in a base. -/
def valueIn (base : Nat) (ds : List Char) : Nat :=
  ds.foldl (fun n c => n * base + (hexValue? c).getD 0) 0

/-- Whether the integer has 64 bits with a sign. -/
def inRange (i : Int) : Bool := -9223372036854775808 ≤ i && i ≤ 9223372036854775807

/-- An integer in range, and what follows. -/
def integerIn (i : Int) (rest : List Char) : Option (Toml × List Char) :=
  if inRange i then some (.integer i, rest) else none

/-- An integer after the mark of its base. -/
def based? (base : Nat) (isDigit : Char → Bool) (cs : List Char) : Option (Toml × List Char) := do
  let (ds, rest) ← digits? isDigit cs
  integerIn (valueIn base ds) rest

/-- The sign of a number, `true` if it is negative, and what follows. -/
def sign : List Char → Bool × List Char
  | '-' :: rest => (true, rest)
  | '+' :: rest => (false, rest)
  | cs => (false, cs)

/-- The digits before the point of a number; only a single digit may be zero at the front. -/
def wholeDigits? (cs : List Char) : Option (List Char × List Char) :=
  match cs with
  | '0' :: rest => some (['0'], rest)
  | cs => digits? Char.isDigit cs

/-- The digits after a point, none if there is no point, and what follows. -/
def fraction? : List Char → Option (List Char × List Char)
  | '.' :: rest => digits? Char.isDigit rest
  | cs => some ([], cs)

/-- The exponent, zero if there is none, whether there is one, and what follows. -/
def exponent? : List Char → Option (Int × Bool × List Char)
  | 'e' :: rest | 'E' :: rest => do
    let (negative, rest) := sign rest
    let (ds, rest) ← digits? Char.isDigit rest
    let e : Int := Text.decimal ds
    return (if negative then -e else e, true, rest)
  | cs => some (0, false, cs)

/-- Whether a decimal number `m * 10 ^ e` rounds to a float that is finite: it must be less than
half a step beyond the largest one. -/
def isFinite (m : Nat) (e : Int) : Bool :=
  if m = 0 then true
  else
    let magnitude := (Nat.toDigits 10 m).length + e
    if magnitude < 309 then true
    else if 309 < magnitude then false
    else
      let limit := Nat.pow 2 1024 - Nat.pow 2 970
      match e with
      | .ofNat n => m * Nat.pow 10 n < limit
      | .negSucc n => m < limit * Nat.pow 10 (n + 1)

/-- An integer or a float in base ten, and what follows. A float may be too large only if it is
negative. -/
def decimal? (cs : List Char) : Option (Toml × List Char) := do
  let (negative, rest) := sign cs
  let (whole, rest) ← wholeDigits? rest
  let (fraction, rest) ← fraction? rest
  let (e, hasExponent, rest) ← exponent? rest
  if fraction.isEmpty && !hasExponent then
    let n : Int := Text.decimal whole
    integerIn (if negative then -n else n) rest
  else if negative || isFinite (Text.decimal (whole ++ fraction)) (e - fraction.length) then
    return (.float, rest)
  else none

/-- A number of exactly `count` digits, and what follows. -/
def fixedDigits? (count : Nat) (cs : List Char) : Option (Nat × List Char) :=
  let ds := cs.take count
  if ds.length = count ∧ ds.all Char.isDigit then some (Text.decimal ds, cs.drop count) else none

/-- A number of exactly `count` digits between two bounds, and what follows. -/
def field? (count low high : Nat) (cs : List Char) : Option (Nat × List Char) := do
  let (n, rest) ← fixedDigits? count cs
  if low ≤ n ∧ n ≤ high then return (n, rest) else none

/-- The text after a mark. -/
def mark? (m : Char) : List Char → Option (List Char)
  | c :: rest => if c = m then some rest else none
  | [] => none

/-- How many days a month has. -/
def daysIn (year month : Nat) : Nat :=
  if month = 2 then
    if year % 4 = 0 ∧ (year % 100 ≠ 0 ∨ year % 400 = 0) then 29 else 28
  else if month = 4 ∨ month = 6 ∨ month = 9 ∨ month = 11 then 30
  else 31

/-- The text after a date. -/
def date? (cs : List Char) : Option (List Char) := do
  let (year, rest) ← fixedDigits? 4 cs
  let (month, rest) ← field? 2 1 12 (← mark? '-' rest)
  let (_, rest) ← field? 2 1 (daysIn year month) (← mark? '-' rest)
  return rest

/-- The text after the fraction of a second, if there is one. -/
def secondFraction? : List Char → Option (List Char)
  | '.' :: rest =>
    match rest.takeWhile Char.isDigit with
    | [] => none
    | _ => some (rest.dropWhile Char.isDigit)
  | cs => some cs

/-- The text after a time of day; a minute may have a leap second. -/
def time? (cs : List Char) : Option (List Char) := do
  let (_, rest) ← field? 2 0 23 cs
  let (_, rest) ← field? 2 0 59 (← mark? ':' rest)
  let (_, rest) ← field? 2 0 60 (← mark? ':' rest)
  secondFraction? rest

/-- The text after the offset of a time, if there is one. -/
def offset? : List Char → Option (List Char)
  | 'Z' :: rest | 'z' :: rest => some rest
  | '+' :: rest | '-' :: rest => do
    let (_, rest) ← field? 2 0 23 rest
    let (_, rest) ← field? 2 0 59 (← mark? ':' rest)
    return rest
  | cs => some cs

/-- The text after a time of day that follows a date, if there is one. -/
def dayTime? (cs : List Char) : Option (List Char) :=
  match cs with
  | 'T' :: rest | 't' :: rest => do offset? (← time? rest)
  | ' ' :: rest => if (fixedDigits? 2 rest).isSome then do offset? (← time? rest) else some cs
  | cs => some cs

/-- The text after a date, a time of day, or both. -/
def datetime? (cs : List Char) : Option (List Char) :=
  match date? cs with
  | some rest => dayTime? rest
  | none => time? cs

/-- Whether the text begins like a date or a time of day. -/
def looksTimed (cs : List Char) : Bool :=
  let ds := cs.takeWhile Char.isDigit
  match cs.dropWhile Char.isDigit with
  | '-' :: _ => ds.length == 4
  | ':' :: _ => ds.length == 2
  | _ => false

/-- A number or a time, and what follows. -/
def number? (cs : List Char) : Option (Toml × List Char) :=
  match cs with
  | '0' :: 'x' :: rest => based? 16 (fun c => (hexValue? c).isSome) rest
  | '0' :: 'o' :: rest => based? 8 (fun c => '0' ≤ c ∧ c ≤ '7') rest
  | '0' :: 'b' :: rest => based? 2 (fun c => c == '0' || c == '1') rest
  | cs =>
    match (sign cs).2 with
    | 'i' :: 'n' :: 'f' :: rest | 'n' :: 'a' :: 'n' :: rest => some (.float, rest)
    | _ => if looksTimed cs then (datetime? cs).map (.datetime, ·) else decimal? cs

end TrackPlan.Toml
