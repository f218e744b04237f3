/-!
# The host of a run

What a run of the program does beyond computing: it reads files and the standard input, and writes
files and the standard output. A host is any way of doing so.
-/

namespace TrackPlan

/-- Why a file cannot be read or written. -/
inductive AccessError where
  | notFound
  | notDirectory
  | isDirectory
  /-- The path, or a name in it, is longer than any file's. -/
  | nameTooLong
  /-- There is a NUL character in the path. -/
  | nulInName
  /-- The contents are no UTF-8 text. -/
  | notText
  /-- Anything else, in words. -/
  | other (reason : String)
  deriving DecidableEq, Repr

/-- The error in words. -/
def AccessError.message : AccessError → String
  | notFound => "No such file or directory (os error 2)"
  | notDirectory => "Not a directory (os error 20)"
  | isDirectory => "Is a directory (os error 21)"
  | nameTooLong => "File name too long (os error 36)"
  | nulInName => "file name contained an unexpected NUL byte"
  | notText => "stream did not contain valid UTF-8"
  | other reason => reason

/-- The text that bytes stand for. -/
def textOf (bytes : ByteArray) : Except AccessError String :=
  match String.fromUTF8? bytes with
  | some s => .ok s
  | none => .error .notText

/-- Files by their paths, and the standard streams. -/
structure Host (m : Type → Type) where
  readFile : String → m (Except AccessError ByteArray)
  writeFile : String → ByteArray → m (Except AccessError Unit)
  /-- All of the standard input. -/
  readInput : m ByteArray
  writeOutput : ByteArray → m Unit

namespace Host

variable {m : Type → Type} [Monad m] (h : Host m)

/-- The text in a file. -/
def readText (path : String) : m (Except AccessError String) := do
  return (← h.readFile path) >>= textOf

/-- The text on the standard input. -/
def readInputText : m (Except AccessError String) := do
  return textOf (← h.readInput)

end Host

end TrackPlan
