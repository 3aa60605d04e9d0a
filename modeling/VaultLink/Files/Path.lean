/-!
# Paths

A path is a text of names between slashes. As a text it is taken apart and put together: there, empty
names and single dots count for nothing after the first place. As a way through a tree of
directories it is a route, which is followed name by name, single and double dots included.

* `FilePath.join`, `FilePath.parent?`, `FilePath.fileName?`, `FilePath.withFileName`: the text;
* `FilePath.ancestors`: a path and the paths of the directories above it;
* `Route.ofPath`: the route of a path, or why there is none.
-/

namespace VaultLink

namespace FilePath

/-- The characters between slashes. -/
def splitSlash : List Char → List (List Char)
  | [] => [[]]
  | c :: cs =>
    if c = '/' then [] :: splitSlash cs
    else match splitSlash cs with
      | [] => [[c]]
      | part :: parts => (c :: part) :: parts

/-- The texts between slashes. -/
def split (path : String) : List String := (splitSlash path.toList).map String.ofList

/-- Whether a part of a path counts for nothing after the first place. -/
def isIdle (part : String) : Bool := part = "" || part = "."

/-- The parts without those at the end that count for nothing. An empty first part stands for the
root. -/
def trim : List String → List String
  | [] => []
  | first :: rest => first :: (rest.reverse.dropWhile isIdle).reverse

/-- The text of the parts of a path. -/
def text : List String → String
  | [""] => "/"
  | parts => "/".intercalate parts

/-- The path of the directory that a path leads from; the root and the empty path have none. -/
def parent? (path : String) : Option String :=
  match trim (split path) with
  | [] | [""] => none
  | parts => some (text (trim parts.dropLast))

/-- The last name of a path, if it ends in a name. -/
def fileName? (path : String) : Option String :=
  (trim (split path)).getLast?.filter fun name => !(isIdle name || name = "..")

/-- A path put behind a directory: itself if it starts at the root. -/
def join (directory path : String) : String :=
  if path.startsWith "/" then path
  else if directory.isEmpty || directory.endsWith "/" then directory ++ path
  else directory ++ "/" ++ path

/-- The path with another last name; a path that does not end in a name gets one. -/
def withFileName (path name : String) : String :=
  match fileName? path with
  | some _ => join ((parent? path).getD "") name
  | none => join path name

/-- A path and the paths above it, nearest first, as long as they have a parent. -/
def climb : (steps : Nat) → String → List String
  | 0, _ => []
  | steps + 1, path =>
    match parent? path with
    | none => []
    | some above => path :: climb steps above

/-- A path and the paths of the directories above it, without the one where it starts. -/
def ancestors (path : String) : List String := climb (split path).length path

end FilePath

/-- Where something is in a tree: the names from the current directory on, or behind an empty name
those from the root on. -/
abbrev Place := List String

namespace Place

/-- The place of the directory above; there is none above the root. -/
def above (here : Place) : Place := if here = [""] then here else here.dropLast

/-- Where a name leads from a directory. -/
def toward (here : Place) (name : String) : Place :=
  if name = "." then here else if name = ".." then here.above else here ++ [name]

end Place

/-- Why a file operation failed. -/
inductive FileFault where
  | notFound
  | exists_
  | notDirectory
  | isDirectory
  | nameTooLong
  | busy
  /-- There is something that has no content. -/
  | noContent
  /-- The path holds a NUL, which no name can. -/
  | nul
  /-- A reason of the file system's own. -/
  | refused (reason : String)
  deriving DecidableEq, Repr

/-- The fault in words. -/
def FileFault.message : FileFault → String
  | notFound => "No such file or directory (os error 2)"
  | noContent => "No such device or address (os error 6)"
  | busy => "Device or resource busy (os error 16)"
  | exists_ => "File exists (os error 17)"
  | notDirectory => "Not a directory (os error 20)"
  | isDirectory => "Is a directory (os error 21)"
  | nameTooLong => "File name too long (os error 36)"
  | nul => "file name contained an unexpected NUL byte"
  | refused reason => reason

/-- The way that a path describes. -/
structure Route where
  start : Place
  /-- The names that have to be directories. -/
  front : List String
  /-- The last name; a dot if there is none. -/
  last : String
  /-- Whether a slash follows the last name, which then has to be a directory as well. -/
  slash : Bool
  deriving DecidableEq, Repr

namespace Route

/-- How many bytes a path may have, an end mark included. -/
def capacity : Nat := 4096

/-- How many bytes a name may have. -/
def nameCapacity : Nat := 255

/-- The route of a path. -/
def ofPath (path : String) : Except FileFault Route :=
  if path.toList.contains (Char.ofNat 0) then .error .nul
  else if path.isEmpty then .error .notFound
  else if capacity ≤ path.utf8ByteSize then .error .nameTooLong
  else
    let names := (FilePath.split path).filter (· ≠ "")
    .ok
      { start := if path.startsWith "/" then [""] else []
        front := names.dropLast
        last := names.getLastD "."
        slash := path.endsWith "/" }

/-- Whether the route ends in dots, and so in a directory. -/
def isDotted (route : Route) : Bool := route.last = "." || route.last = ".."

end Route

end VaultLink
