import VaultLink.Bytes
import VaultLink.Files.Path

/-!
# Files

A tree of files and directories as a value, and what can be done to it. An operation fails where the
tree does not allow it, and also whenever the file system refuses it for reasons of its own, such as
a full disk; the part of it that was done before then stays done.

* `FileSystem.find`, `FileSystem.read`: what a path leads to;
* `FileAction`: `makeDirectories`, `create`, `write`, `sync`, `rename`, `remove`.
-/

namespace VaultLink

/-- The operations that a file system may refuse. -/
inductive FileOperation where
  | makeDirectory
  | create
  | write
  | sync
  | rename
  | remove
  deriving DecidableEq, Repr

/-- What is at a place. -/
inductive Node where
  | file (content : Bytes) (mode : Nat)
  | directory
  /-- Where a program listens. -/
  | socket
  deriving DecidableEq

/-- A tree of files and directories. -/
structure FileSystem where
  /-- What is at each place; the directories from which paths start are always there. -/
  nodes : List (Place × Node)
  /-- What the file system refuses for reasons of its own, as things are. -/
  refusal : FileOperation → List (Place × Node) → Option FileFault := fun _ _ => none
  /-- How much of a content is written before the rest of it is refused, as things are. -/
  room : List (Place × Node) → Nat := fun _ => 0

/-- Something that is done to a tree, and that may change it also when it fails. -/
abbrev FileAction := EStateM FileFault FileSystem

namespace FileSystem

/-- What is at a place. -/
def node? (fs : FileSystem) (place : Place) : Option Node :=
  if place = [] || place = [""] then some .directory else fs.nodes.lookup place

/-- Puts something at a place, instead of what was there. -/
def put (place : Place) (node : Node) (fs : FileSystem) : FileSystem :=
  { fs with nodes := (place, node) :: fs.nodes.filter fun entry => entry.1 ≠ place }

/-- Takes away what is at a place. -/
def drop (place : Place) (fs : FileSystem) : FileSystem :=
  { fs with nodes := fs.nodes.filter fun entry => entry.1 ≠ place }

/-- Fails on a name that is too long for any file. -/
def checkName (name : String) : Except FileFault Unit :=
  if Route.nameCapacity < name.utf8ByteSize then .error .nameTooLong else .ok ()

/-- Goes from a directory into the one with a name. -/
def step (fs : FileSystem) (here : Place) (name : String) : Except FileFault Place := do
  let there := here.toward name
  if name = "." || name = ".." then return there
  checkName name
  match fs.node? there with
  | none => throw .notFound
  | some .directory => return there
  | some _ => throw .notDirectory

/-- Goes from a directory into others, name by name. -/
def enter (fs : FileSystem) (here : Place) : List String → Except FileFault Place
  | [] => .ok here
  | name :: names => do
    let there ← fs.step here name
    fs.enter there names

/-- The route of a path and the place to which it leads, whether or not anything is there. -/
def aim (fs : FileSystem) (path : String) : Except FileFault (Route × Place) := do
  let route ← Route.ofPath path
  let here ← fs.enter route.start route.front
  checkName route.last
  return (route, here.toward route.last)

/-- The place to which a path leads, and what is there. -/
def find (fs : FileSystem) (path : String) : Except FileFault (Place × Node) := do
  let (route, place) ← fs.aim path
  if route.isDotted then return (place, .directory)
  match fs.node? place with
  | none => throw .notFound
  | some node =>
    if route.slash && node ≠ .directory then throw .notDirectory
    return (place, node)

/-- Whether a path leads to a directory. -/
def isDirectory (fs : FileSystem) (path : String) : Bool :=
  match fs.find path with
  | .ok (_, .directory) => true
  | _ => false

/-- The content of a file. -/
def read (fs : FileSystem) (path : String) : Except FileFault Bytes := do
  match ← fs.find path with
  | (_, .file content _) => return content
  | (_, .directory) => throw .isDirectory
  | (_, .socket) => throw .noContent

/-- The permissions of a file. -/
def mode? (fs : FileSystem) (path : String) : Option Nat :=
  match fs.find path with
  | .ok (_, .file _ mode) => some mode
  | _ => none

end FileSystem

namespace FileAction

open FileSystem (put)

/-- A look at the tree. -/
def look {α : Type} (f : FileSystem → Except FileFault α) : FileAction α := fun fs =>
  match f fs with
  | .ok a => .ok a fs
  | .error fault => .error fault fs

/-- Fails if the file system refuses an operation. -/
def permit (operation : FileOperation) : FileAction Unit := do
  let fs ← get
  match fs.refusal operation fs.nodes with
  | some fault => throw fault
  | none => pure ()

/-- Makes a directory in one that is there. -/
def makeDirectory (path : String) : FileAction Unit := do
  let (route, place) ← look (·.aim path)
  if route.isDotted || ((← get).node? place).isSome then throw .exists_
  permit .makeDirectory
  modify (put place .directory)

/-- Makes the first of the paths a directory, and before it those of the others that are missing. -/
def makeFirst : (paths : List String) → FileAction Unit
  | [] => pure ()
  | path :: above =>
    tryCatch (makeDirectory path) fun
      | .notFound => do
        makeFirst above
        tryCatch (makeDirectory path) (unlessThere path)
      | fault => unlessThere path fault
where
  /-- The fault of making a directory, which does not count if there is one already. -/
  unlessThere (path : String) (fault : FileFault) : FileAction Unit := do
    if fault = .exists_ && (← get).isDirectory path then pure () else throw fault

/-- Makes a directory and those above it, as far as they are missing. -/
def makeDirectories (path : String) : FileAction Unit := makeFirst (FilePath.ancestors path)

/-- Makes an empty file, or empties the one that is there; only a new one gets the permissions. -/
def create (path : String) (mode : Nat) : FileAction Unit := do
  permit .create
  let (route, place) ← look (·.aim path)
  if route.isDotted || route.slash then throw .isDirectory
  match (← get).node? place with
  | none => modify (put place (.file [] mode))
  | some (.file _ old) => modify (put place (.file [] old))
  | some .directory => throw .isDirectory
  | some .socket => throw .noContent

/-- Writes the content of a file that is there. If that is refused, a part of it may be written. -/
def write (path : String) (content : Bytes) : FileAction Unit := do
  match ← look (·.find path) with
  | (place, .file _ mode) =>
    let fs ← get
    match fs.refusal .write fs.nodes with
    | some fault =>
      modify (put place (.file (content.take (fs.room fs.nodes)) mode))
      throw fault
    | none => modify (put place (.file content mode))
  | (_, .directory) => throw .isDirectory
  | (_, .socket) => throw .noContent

/-- Makes sure that what was written outlasts a loss of power. -/
def sync : FileAction Unit := permit .sync

/-- Moves a file, in place of one that is there. -/
def rename (source target : String) : FileAction Unit := do
  permit .rename
  let (_, sourcePlace) ← look (·.aim source)
  let (route, targetPlace) ← look (·.aim target)
  if route.isDotted then throw .busy
  let (_, node) ← look (·.find source)
  if node = .directory then throw .isDirectory
  if route.slash then throw .notDirectory
  if (← get).node? targetPlace = some .directory then throw .isDirectory
  modify fun fs => (fs.drop sourcePlace).put targetPlace node

/-- Removes a file if there is one and the file system does not refuse it. -/
def remove (path : String) : FileAction Unit :=
  modify fun fs =>
    match fs.find path, fs.refusal .remove fs.nodes with
    | .ok (place, .file _ _), none => fs.drop place
    | _, _ => fs

end FileAction

end VaultLink
