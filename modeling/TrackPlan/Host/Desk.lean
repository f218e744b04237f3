import TrackPlan.Host.Basic
import TrackPlan.Text.Split

/-!
# A desk

A host that is a plain value: one folder of files, without folders in it, what is to be read on the
standard input, and what has been written on the standard output. Paths lead from that folder. What
lies outside it cannot be seen: there are no files to be read, and a file that is written there is
lost. A name has 255 bytes at most and a path 4095.
-/

namespace TrackPlan

/-- Files by their names. -/
abbrev Folder := List (String × ByteArray)

/-- What follows the first name in a path. -/
inductive Rest where
  | nothing
  /-- Slashes, as after a folder. -/
  | slashes
  /-- Something below the name. -/
  | further
  deriving DecidableEq, Repr

/-- Where a path leads. -/
inductive Place where
  /-- Nowhere, for the path is empty. -/
  | nowhere
  /-- To the folder itself, or one that it lies in. -/
  | folder
  /-- To a name, in the folder or outside it, or through it. -/
  | entry (inside : Bool) (name : String) (rest : Rest)
  deriving DecidableEq, Repr

/-- What the parts after the first name in a path are. -/
def Rest.ofParts (parts : List (List Char)) : Rest :=
  if parts = [] then nothing else if parts.all (· == []) then slashes else further

namespace Place

/-- Where the parts of a path lead from the folder, or from outside it. -/
def ofParts : (inside : Bool) → List (List Char) → Place
  | _, [] => folder
  | inside, part :: rest =>
    if part = [] ∨ part = ['.'] then ofParts inside rest
    else if part = ['.', '.'] then ofParts false rest
    else entry inside (String.ofList part) (.ofParts rest)

/-- Where a path leads. -/
def ofPath (path : String) : Place :=
  match path.toList with
  | [] => nowhere
  | '/' :: rest => ofParts false (Text.splitAt '/' rest)
  | cs => ofParts true (Text.splitAt '/' cs)

end Place

/-- Refuses a path that no file can have. -/
def checkPath (path : String) : Except AccessError Unit :=
  if path.toList.contains '\x00' then .error .nulInName
  else if 4096 ≤ path.utf8ByteSize then .error .nameTooLong
  else .ok ()

/-- Refuses a name that no file can have. -/
def checkName (name : String) : Except AccessError Unit :=
  if 255 < name.utf8ByteSize then .error .nameTooLong else .ok ()

namespace Folder

/-- The file of a name, in the folder or outside it. -/
def find? (f : Folder) (inside : Bool) (name : String) : Option ByteArray :=
  if inside then f.lookup name else none

/-- What is wrong with a path through a name. -/
def passError (f : Folder) (inside : Bool) (name : String) : AccessError :=
  if (f.find? inside name).isSome then .notDirectory else .notFound

/-- Reads the file of a path. -/
def read (f : Folder) (path : String) : Except AccessError ByteArray := do
  checkPath path
  match Place.ofPath path with
  | .nowhere => throw .notFound
  | .folder => throw .isDirectory
  | .entry inside name .nothing =>
    checkName name
    match f.find? inside name with
    | some bytes => return bytes
    | none => throw .notFound
  | .entry inside name _ =>
    checkName name
    throw (f.passError inside name)

/-- The folder with a file put in, in place of one of its name. -/
def put (name : String) (bytes : ByteArray) : Folder → Folder
  | [] => [(name, bytes)]
  | file :: rest => if file.1 = name then (name, bytes) :: rest else file :: put name bytes rest

/-- Writes the file of a path. -/
def write (f : Folder) (path : String) (bytes : ByteArray) : Except AccessError Folder := do
  checkPath path
  match Place.ofPath path with
  | .nowhere => throw .notFound
  | .folder | .entry _ _ .slashes => throw .isDirectory
  | .entry inside name .nothing =>
    checkName name
    return if inside then f.put name bytes else f
  | .entry inside name .further =>
    checkName name
    throw (f.passError inside name)

/-- The files that are not in an older state of the folder, or not with the same contents. -/
def changesSince (old new : Folder) : Folder :=
  new.filter fun file => old.lookup file.1 != some file.2

end Folder

/-- All that a run can see and change. -/
structure Desk where
  folder : Folder
  input : ByteArray
  output : ByteArray := .empty

/-- A desk as a host. -/
def Host.desk : Host (StateM Desk) where
  readFile path := return (← get).folder.read path
  writeFile path bytes := do
    match (← get).folder.write path bytes with
    | .ok folder =>
      modify fun d => { d with folder }
      return .ok ()
    | .error e => return .error e
  readInput := return (← get).input
  writeOutput bytes := modify fun d => { d with output := d.output ++ bytes }

namespace Host

@[simp] theorem run_readFile_desk (path : String) (d : Desk) :
    (desk.readFile path).run d = (d.folder.read path, d) := rfl

@[simp] theorem run_readInput_desk (d : Desk) : desk.readInput.run d = (d.input, d) := rfl

@[simp] theorem run_writeOutput_desk (bytes : ByteArray) (d : Desk) :
    (desk.writeOutput bytes).run d = ((), { d with output := d.output ++ bytes }) := rfl

end Host

end TrackPlan
