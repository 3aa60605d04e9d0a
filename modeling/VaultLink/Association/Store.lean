import VaultLink.Association.Record
import VaultLink.Files.FileSystem
import VaultLink.Json.Printer
import VaultLink.Json.Reader

/-!
# Association stores

Where associations outlive a run: a list of stored associations that is read once and written as a
whole after every change.

* `AssociationStore`: what every store can do;
* `MemoryStore`: a store that forgets; it counts the lists saved and can be made to fail;
* `FileStore`: a store in a JSON file. The new list is written to a file beside it, which then takes
  its place, so that the file holds either the old list or the new one.
-/

namespace VaultLink

/-- What a store can do. -/
class AssociationStore (σ : Type) where
  /-- The stored list. -/
  load : σ → Except Error (List StoredAssociation)
  /-- Stores a list in place of the old one. -/
  save : List StoredAssociation → σ → Except Error Unit × σ

/-- A store in memory. -/
structure MemoryStore where
  records : List StoredAssociation := []
  /-- How many lists were saved. -/
  saves : Nat := 0
  /-- Why saving fails, if it does. -/
  failure : Option StoreFault := none
  deriving DecidableEq

instance : AssociationStore MemoryStore where
  load store := .ok store.records
  save records store :=
    match store.failure with
    | some cause => (.error (.store cause), store)
    | none => (.ok (), { store with records, saves := store.saves + 1 })

/-- A store in a file. -/
structure FileStore where
  path : String
  fs : FileSystem

namespace StoredAssociation

open Json (Reader Record)

/-- Reads a string and puts it into the record with `put`. -/
def into (put : StoredAssociation → String → StoredAssociation) (stored : StoredAssociation) :
    Reader StoredAssociation := fun depth bs => do
  let (text, rest) ← Reader.string depth bs
  return (put stored text, rest)

/-- The fields of a stored association. -/
def shape : Record (StoredAssociation → Reader StoredAssociation) StoredAssociation where
  name := "StoredAssociation"
  blank := ⟨"", "", ""⟩
  fields :=
    [⟨"database_id", .required, into fun r x => { r with databaseId := x }⟩,
      ⟨"name", .required, into fun r x => { r with name := x }⟩,
      ⟨"id_key", .required, into fun r x => { r with idKey := x }⟩]

/-- The fields of the file: one list. -/
def fileShape :
    Record (List StoredAssociation → Reader (List StoredAssociation)) (List StoredAssociation) where
  name := "StoreFile"
  blank := []
  fields := [⟨"associations", .defaulted, fun _ => Reader.list (Reader.record shape)⟩]

/-- The list in the content of a file. -/
def decodeList (content : Bytes) : Except Json.Misfit (List StoredAssociation) :=
  (Reader.record fileShape).whole content

/-- The written form of a stored association. -/
def toJson (stored : StoredAssociation) : Json :=
  .object [("database_id", .string stored.databaseId), ("name", .string stored.name),
    ("id_key", .string stored.idKey)]

/-- The content of a file with a list. -/
def encodeList (records : List StoredAssociation) : Bytes :=
  Json.pretty (.object [("associations", .array (records.map toJson))])

end StoredAssociation

namespace FileStore

/-- The path of the file that is written first. -/
def draft (path : String) : String :=
  FilePath.withFileName path ((FilePath.fileName? path).getD "" ++ ".tmp")

/-- The stored list; a missing file holds none. -/
def load (store : FileStore) : Except Error (List StoredAssociation) :=
  match store.fs.read store.path with
  | .error .notFound => .ok []
  | .error fault => .error (.store (.system store.path fault.message))
  | .ok content =>
    match StoredAssociation.decodeList content with
    | .ok records => .ok records
    | .error misfit => .error (.store (.unreadable store.path misfit))

/-- Writes the draft and puts it in the place of the file. If that fails, the draft is removed as far as
that can be done. -/
def replace (path : String) (content : Bytes) : FileAction Unit :=
  tryCatch
    (do
      FileAction.create (draft path) 0o600
      FileAction.write (draft path) content
      FileAction.sync
      FileAction.rename (draft path) path)
    fun fault => do
      FileAction.remove (draft path)
      throw fault

/-- Does something to the files; a fault is told with the path that it is about. -/
def onFiles (store : FileStore) (path : String) (action : FileAction Unit) :
    Except Error Unit × FileStore :=
  match action store.fs with
  | .ok () fs => (.ok (), { store with fs })
  | .error fault fs => (.error (.store (.system path fault.message)), { store with fs })

/-- Stores a list: makes the directory, and then writes the file by way of the draft. -/
def save (records : List StoredAssociation) (store : FileStore) : Except Error Unit × FileStore :=
  let directory := (FilePath.parent? store.path).getD ""
  match store.onFiles directory (FileAction.makeDirectories directory) with
  | (.ok (), store) =>
    store.onFiles store.path (replace store.path (StoredAssociation.encodeList records))
  | failed => failed

end FileStore

instance : AssociationStore FileStore where
  load := FileStore.load
  save := FileStore.save

end VaultLink
