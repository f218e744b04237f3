import TrackPlan.Path
import TrackPlan.Table.Document
import TrackPlan.Document.Binary
import TrackPlan.Document.Json.Reader
import TrackPlan.Document.Json.Writer
import TrackPlan.Document.Ron.Reader
import TrackPlan.Document.Ron.Writer
import TrackPlan.Document.Toml.Reader
import TrackPlan.Document.Toml.Writer

/-!
# Track files

A track table is written in one of four formats. The text formats stand as they are; a binary file
has a header in front, by which foreign and stale files are told.
-/

namespace TrackPlan

/-- The formats of a track file. -/
inductive Format where
  | json
  | ron
  | toml
  | binary
  deriving DecidableEq, Repr

namespace Format

/-- The name of the format. -/
def name : Format → String
  | json => "json"
  | ron => "ron"
  | toml => "toml"
  | binary => "bitcode"

/-- The extension of files in the format. -/
def extension : Format → String
  | json => "json"
  | ron => "ron"
  | toml => "toml"
  | binary => "bin"

/-- Whether files in the format are no texts. -/
def isBinary : Format → Bool
  | binary => true
  | _ => false

/-- Every format. -/
def all : List Format := [json, ron, toml, binary]

end Format

/-- What can be wrong with a track file or with the choice of its format. -/
inductive FileError where
  /-- No format has this name. -/
  | unknownFormat (name : String)
  /-- The extension of the path belongs to no format. -/
  | unknownExtension (path : String)
  /-- The table cannot be written in the format. -/
  | unwritable (format : Format)
  /-- The bytes are no table in the format. -/
  | unreadable (format : Format)
  /-- The file begins with another number than track files do. -/
  | invalidMagic (magic : UInt32)
  /-- The version is older than this one. -/
  | unsupportedVersion (version : UInt32)
  /-- The version is newer than this one. -/
  | futureVersion (version : UInt32)
  deriving DecidableEq, Repr

/-- The number that binary track files begin with. -/
def trackMagic : UInt32 := 0x7EAC0001

/-- The version of binary track files. -/
def trackVersion : UInt32 := 1

/-- Eight hexadecimal digits in upper case. -/
def hexWord (n : UInt32) : String :=
  let digits := (Nat.toDigits 16 n.toNat).map Char.toUpper
  String.ofList (List.replicate (8 - digits.length) '0' ++ digits)

/-- The error in words. -/
def FileError.message : FileError → String
  | unknownFormat name => s!"unknown output format '{name}' (expected json, ron, toml or bitcode)"
  | unknownExtension path => s!"cannot infer output format from {path}"
  | unwritable format => s!"{format.name} encoding failed"
  | unreadable format => s!"{format.name} decoding failed"
  | invalidMagic magic =>
    s!"invalid magic number: expected 0x{hexWord trackMagic}, got 0x{hexWord magic}"
  | unsupportedVersion version =>
    s!"unsupported format version: expected {trackVersion}, got {version}"
  | futureVersion version =>
    s!"track file from future version {version} (this build supports up to {trackVersion})"

namespace Format

/-- The format of a name; case does not count among ASCII letters. -/
def ofName (name : String) : Except FileError Format :=
  match String.ofList (name.toList.map Char.toLower) with
  | "json" => .ok json
  | "ron" => .ok ron
  | "toml" => .ok toml
  | "bitcode" | "bin" => .ok binary
  | _ => .error (.unknownFormat name)

/-- The format that the extension of a path belongs to. -/
def ofPath (path : String) : Except FileError Format :=
  match Path.extension? path with
  | some "json" => .ok json
  | some "ron" => .ok ron
  | some "toml" => .ok toml
  | some "bin" | some "bitcode" => .ok binary
  | _ => .error (.unknownExtension path)

end Format

/-- The header of a binary track file. -/
structure Header where
  magic : UInt32
  version : UInt32
  deriving DecidableEq, Repr

namespace Header

/-- The header of files written here. -/
def current : Header := ⟨trackMagic, trackVersion⟩

/-- Accepts only the current header; the magic number is judged first. -/
def validate (h : Header) : Except FileError Unit :=
  if h.magic ≠ trackMagic then .error (.invalidMagic h.magic)
  else if trackVersion < h.version then .error (.futureVersion h.version)
  else if h.version < trackVersion then .error (.unsupportedVersion h.version)
  else .ok ()

/-- The header as data. -/
def toDatum (h : Header) : Datum :=
  .struct [("magic", .number h.magic.toNat), ("version", .number h.version.toNat)]

/-- The shape of a header. -/
def shape : Shape := .struct "TrackHeader" [required "magic" .word, required "version" .word]

/-- The header that a datum stands for. -/
def ofDatum? : Datum → Option Header
  | .struct [(_, .number magic), (_, .number version)] => some ⟨.ofNat magic, .ofNat version⟩
  | _ => none

end Header

namespace Table

/-- The shape of a binary file. -/
def binaryShape : Shape :=
  .struct "TrackFile" [required "header" Header.shape, required "track" shape]

/-- A binary file with the given header. -/
def writeBinary (t : Table) (h : Header) : ByteArray :=
  ⟨(Binary.encode (.struct [("header", h.toDatum), ("track", t.toDatum)])).toArray⟩

/-- Reads the header and the table of a binary file, whatever the header is. -/
def readBinary? (bytes : ByteArray) : Option (Header × Table) := do
  match ← Binary.read? binaryShape bytes.data.toList with
  | .struct [(_, header), (_, track)] => return (← Header.ofDatum? header, ← ofDatum? track)
  | _ => none

/-- Reads a binary file; its header is judged once the file is known to be whole. -/
def readBinary (bytes : ByteArray) : Except FileError Table :=
  match readBinary? bytes with
  | none => .error (.unreadable .binary)
  | some (h, t) => do
    h.validate
    return t

/-- The bytes of a text. -/
def textBytes (cs : List Char) : ByteArray := (String.ofList cs).toUTF8

/-- Writes a table in a format. -/
def emit (t : Table) : Format → Except FileError ByteArray
  | .json => .ok (textBytes (Json.render t.toDatum))
  | .ron => .ok (textBytes (Ron.render t.toDatum))
  | .toml =>
    match Toml.render? t.toDatum with
    | some cs => .ok (textBytes cs)
    | none => .error (.unwritable .toml)
  | .binary => .ok (t.writeBinary Header.current)

/-- Reads a table from a text in a text format. -/
def ofText? (cs : List Char) : Format → Option Table
  | .json => (Json.read? shape cs).bind ofDatum?
  | .ron => (Ron.read? shape cs).bind ofDatum?
  | .toml => (Toml.read? shape cs).bind ofDatum?
  | .binary => none

/-- Reads a table from bytes in a text format. They must be UTF-8, except in JSON, whose strings may
hold other bytes if they are passed over. -/
def ofBytes? (bytes : ByteArray) : Format → Option Table
  | .json => ofText? (Json.charsOf bytes) .json
  | f => do ofText? (← String.fromUTF8? bytes).toList f

/-- Reads a table in a format. -/
def decode (bytes : ByteArray) (f : Format) : Except FileError Table :=
  match f with
  | .binary => readBinary bytes
  | f =>
    match ofBytes? bytes f with
    | some t => .ok t
    | none => .error (.unreadable f)

end Table

end TrackPlan
