import TrackPlan.Text.Split

/-!
# File paths

What a path says about its file. A path is a text with slashes between its parts; empty parts and
single dots do not count.
-/

namespace TrackPlan.Path

/-- The parts of a path that count. -/
def parts (path : String) : List String :=
  ((Text.splitAt '/' path.toList).filter fun p => p != [] && p != ['.']).map String.ofList

/-- The name of the file that a path leads to; `..` is no name. -/
def fileName? (path : String) : Option String := (parts path).getLast?.filter (· != "..")

/-- The extension of a file name: what follows its last dot, unless that dot comes first. -/
def extensionOf? (name : String) : Option String :=
  let reversed := name.toList.reverse
  match reversed.dropWhile (· != '.') with
  | [] | [_] => none
  | _ => some (String.ofList (reversed.takeWhile (· != '.')).reverse)

/-- The extension of the file that a path leads to. -/
def extension? (path : String) : Option String := (fileName? path).bind extensionOf?

end TrackPlan.Path
