import TrackPlan.Error
import TrackPlan.Record.Scanner
import TrackPlan.Text.Split

/-!
# Reading records

A line is blank, a comment, or one record. A record has one of seven shapes, told apart by a
keyword:

    sensor A1 : 0 -> C13 @ A2 : 1 -> E7
    sep    S1 -> A3 @ S2 -> A4
    switch BR1 : 1 -> A5/(A6) @ MR1 -> A2
    enter  EN1 -> A1 @ EX1
    dist   A1 C13 480mm
    mutex  BR1 A5 : BR2 A7
    calib  A1
-/

namespace TrackPlan

open Text

/-- The number as a 32-bit value, if it fits. -/
def inRange (n : Nat) : Except LineFault UInt32 :=
  if n < UInt32.size then .ok (UInt32.ofNat n) else .error .numberOutOfRange

namespace Record

open Scanner

/-- A record's shape; the numbers in it are judged once the whole line has that shape. -/
abbrev Shape := Scanner (Except LineFault Record)

/-- Name, numeral and successor of one half of a sensor record. -/
def sensorHalf : Scanner (String × Nat × String) := do
  let name ← name
  mark ":"
  let address ← numeral
  mark "->"
  return (name, address, ← Scanner.name)

/-- Name and successor of one half of a separator record. -/
def separatorHalf : Scanner SeparatorHalf := do
  let name ← name
  mark "->"
  return ⟨name, ← Scanner.name⟩

/-- The shape of a sensor record. -/
def sensorShape : Shape := do
  keyword "sensor"
  let (name, address, ahead) ← sensorHalf
  mark "@"
  let (name', address', ahead') ← sensorHalf
  finish
  return do
    let address ← inRange address
    let address' ← inRange address'
    return .sensors ⟨name, address, ahead⟩ ⟨name', address', ahead'⟩

/-- The shape of a separator record. -/
def separatorShape : Shape := do
  keyword "sep"
  let forward ← separatorHalf
  mark "@"
  let backward ← separatorHalf
  finish
  return .ok (.separators forward backward)

/-- The shape of a switch record. -/
def switchShape : Shape := do
  keyword "switch"
  let branch ← name
  mark ":"
  let number ← numeral
  mark "->"
  let straight ← name
  mark "/"
  mark "("
  let curved ← name
  mark ")"
  mark "@"
  let ⟨merge, ahead⟩ ← separatorHalf
  finish
  return do
    let number ← inRange number
    return .switch branch number straight curved merge ahead

/-- The shape of an entry record. -/
def terminalShape : Shape := do
  keyword "enter"
  let ⟨enter, ahead⟩ ← separatorHalf
  mark "@"
  let exit ← name
  finish
  return .ok (.terminal enter ahead exit)

/-- The shape of a distance record. -/
def distanceShape : Shape := do
  keyword "dist"
  let src ← name
  gap
  let dest ← name
  gap
  let millimeters ← numeral
  blanks
  exactly "mm".toList
  finish
  return do
    let millimeters ← inRange millimeters
    if millimeters = 0 then throw .zeroDistance
    return .distance src dest millimeters

/-- A pair of names, as in one entry of a mutex record. -/
def namePair : Scanner (String × String) := do
  let src ← name
  gap
  let dest ← name
  finish
  return (src, dest)

/-- One entry of a mutex record; blanks around it do not count. -/
def mutexEntry (cs : List Char) : Except LineFault (String × String) :=
  match namePair.whole (trim cs) with
  | some pair => .ok pair
  | none => .error .mutexEntry

/-- The shape of a mutex record: its entries are parted by colons, and its body holds no line
feed. -/
def mutexShape : Shape := do
  keyword "mutex"
  let body ← stretch (· != '\n')
  finish
  return .mutex <$> (splitAt ':' body).mapM mutexEntry

/-- The shape of a calibration record. -/
def calibrationShape : Shape := do
  keyword "calib"
  let node ← name
  finish
  return .ok (.calibration node)

/-- The seven shapes. -/
def shapes : List Shape :=
  [sensorShape, separatorShape, switchShape, terminalShape, distanceShape, mutexShape,
    calibrationShape]

/-- Reads a record from a text without outer blanks. -/
def read (text : List Char) : Except LineFault Record :=
  match shapes.findSome? (·.whole text) with
  | some result => result
  | none => .error .unrecognized

end Record

/-- Whether a text without outer blanks is no record but nothing at all or a comment. -/
def isVacant : List Char → Bool
  | [] => true
  | c :: _ => c == '#'

/-- Reads one line. Blank lines and comments hold no record. -/
def readLine (line : Nat) (raw : List Char) : Except CompileError (Option Record) :=
  let text := trim raw
  if isVacant text then .ok none
  else
    match Record.read text with
    | .ok record => .ok (some record)
    | .error fault => .error (.malformed line (String.ofList text) fault)

/-- Reads lines that are numbered from `first` on, up to the first bad one. -/
def readLines : (first : Nat) → List (List Char) → Except CompileError (List LineRecord)
  | _, [] => .ok []
  | first, raw :: rest => do
    let record? ← readLine first raw
    let records ← readLines (first + 1) rest
    match record? with
    | some record => return ⟨first, record⟩ :: records
    | none => return records

/-- Reads a whole track description; its lines are numbered from one. -/
def readRecords (text : String) : Except CompileError (List LineRecord) :=
  readLines 1 (lines text.toList)

end TrackPlan
