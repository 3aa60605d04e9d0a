import VaultLink.Association.Store
import VaultLink.Table

/-!
# The registry of associations

The associations at hand, filed under the hashes of their databases, and the store behind them. A change is
made at once and then saved; if the store does not take it, what was there before is put back.

* `Association.Index`: associations under hashes; `Index.Sound`: each is filed under its own hash;
* `Registry.ofStore`: the registry of a store;
* `Registry.lookup`, `Registry.records`, `Registry.exportKeys`: what it shows;
* `Registry.insert`, `Registry.evict`: changes.
-/

namespace VaultLink

/-! ## Associations under hashes -/

/-- Associations under the hashes by which they are found. -/
abbrev Association.Index := Table Association

namespace Association.Index

/-- The associations, in the order of the hashes. -/
def values (index : Index) : List Association := List.map Prod.snd index

/-- What a function makes of the associations, in the order of the hashes. -/
def map {α : Type} (f : Association → α) (index : Index) : List α := index.values.map f

/-- The hashes rise, and each association is filed under the hash of its own database. A class, so that the
proof is found where a registry is built from its parts. -/
class Sound (index : Index) : Prop where
  ordered : index.Ordered
  filed : ∀ entry ∈ index, entry.2.databaseId = entry.1

variable {index : Index} {id : String} {record : Association}

instance : Sound [] := ⟨List.Pairwise.nil, fun _ h => by cases h⟩

theorem Sound.insert (h : index.Sound) (hid : record.databaseId = id) :
    Sound (Table.insert id record index) where
  ordered := Table.ordered_insert h.ordered
  filed entry hentry := by
    rcases Table.mem_insert hentry with rfl | hentry
    · exact hid
    · exact h.filed entry hentry

theorem Sound.erase (h : index.Sound) (id : String) : Sound (Table.erase id index) where
  ordered := Table.ordered_erase h.ordered id
  filed entry hentry := h.filed entry (List.mem_filter.1 hentry).1

theorem Sound.databaseId_eq (h : index.Sound) (hget : index.get? id = some record) :
    record.databaseId = id :=
  h.filed _ ((Table.get?_eq_some_iff h.ordered.nodup).1 hget)

end Association.Index

/-! ## Registries -/

/-- Associations filed under their databases, and the store behind them. -/
structure Registry (σ : Type) where
  records : Association.Index
  store : σ
  [sound : records.Sound]

attribute [instance] Registry.sound

namespace Registry

variable {σ : Type}

/-- The association of a database. -/
def lookup (registry : Registry σ) (databaseId : String) : Option Association :=
  registry.records.get? databaseId

/-- A record is found under its own database. -/
theorem databaseId_of_lookup {registry : Registry σ} {id : String} {record : Association}
    (h : registry.lookup id = some record) : record.databaseId = id :=
  registry.sound.databaseId_eq h

/-- Puts an association under the hash of its database. -/
def put (id : String) (record : Association) (h : record.databaseId = id) (registry : Registry σ) :
    Registry σ :=
  { registry with records := registry.records.insert id record, sound := registry.sound.insert h }

/-- Files an association, in place of an earlier one of the same database. -/
def file (record : Association) (registry : Registry σ) : Registry σ :=
  registry.put record.databaseId record rfl

/-- Takes what is filed under a hash away. -/
def drop (id : String) (registry : Registry σ) : Registry σ :=
  { registry with records := registry.records.erase id, sound := registry.sound.erase id }

variable [AssociationStore σ]

/-- The registry of a store. -/
def ofStore (store : σ) : Except Error (Registry σ) := do
  let stored ← AssociationStore.load store
  let records ← stored.mapM Association.ofStored
  return records.foldl (fun registry record => registry.file record) ⟨[], store⟩

/-- The connection keys of all associations. -/
def exportKeys (registry : Registry σ) : List ConnectionKey :=
  registry.records.map Association.connectionKey

/-- Saves the associations at hand. -/
def persist (registry : Registry σ) : Except Error Unit × Registry σ :=
  match AssociationStore.save (registry.records.map Association.toStored) registry.store with
  | (result, store) => (result, { registry with store })

/-- Files an association, and saves that. -/
def insert (record : Association) (registry : Registry σ) : Except Error Unit × Registry σ :=
  match (registry.file record).persist with
  | (.ok (), saved) => (.ok (), saved)
  | (.error e, failed) =>
    match h : registry.lookup record.databaseId with
    | some previous => (.error e, failed.put record.databaseId previous (databaseId_of_lookup h))
    | none => (.error e, failed.drop record.databaseId)

/-- Removes the association of a database, and saves that; whether there was one. -/
def evict (databaseId : String) (registry : Registry σ) : Except Error Bool × Registry σ :=
  match h : registry.lookup databaseId with
  | none => (.ok false, registry)
  | some previous =>
    match (registry.drop databaseId).persist with
    | (.ok (), saved) => (.ok true, saved)
    | (.error e, failed) => (.error e, failed.put databaseId previous (databaseId_of_lookup h))

/-- The registry as a person is told of it. -/
def describe (registry : Registry σ) : String :=
  "AssociationManager \x7b records: "
    ++ String.ofList (Decimal.digitsOf registry.records.length) ++ " \x7d"

end Registry

end VaultLink
