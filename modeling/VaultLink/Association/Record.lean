import VaultLink.Crypto.Key
import VaultLink.Error
import VaultLink.Json.Conform

/-!
# Association records

An association binds a long-lived identification key to a database. It is kept under the database's
hash, with the name that the user gave it.

* `Association.toStored`, `Association.ofStored`: the form in which it is kept;
* `ConnectionKey`: the form in which it is shown to the proxy.
-/

namespace VaultLink

/-- How an association is shown to the proxy: its name and the public half of its key. -/
structure ConnectionKey where
  id : String
  key : String
  deriving DecidableEq, Repr

namespace ConnectionKey

/-- The proxy's form of a connection key. -/
def toJson (connection : ConnectionKey) : Json :=
  .object [("id", .string connection.id), ("key", .string connection.key)]

/-- The fields of a connection key. -/
def shape : Json.Record (ConnectionKey → Json.Conform ConnectionKey) ConnectionKey where
  name := "ConnectionKey"
  blank := ⟨"", ""⟩
  fields :=
    [⟨"id", .required, fun r value => do
        let id ← Json.Conform.string value
        return { r with id }⟩,
      ⟨"key", .required, fun r value => do
        let key ← Json.Conform.string value
        return { r with key }⟩]

/-- Reads a connection key. -/
def ofJson : Json.Conform ConnectionKey := Json.Conform.record shape

end ConnectionKey

/-- The form in which an association is kept: the secret of its key in base64. -/
structure StoredAssociation where
  databaseId : String
  name : String
  idKey : String
  deriving DecidableEq, Repr

/-- An association with a database. -/
structure Association where
  /-- The hash of the database. -/
  databaseId : String
  /-- The name that the user gave it. -/
  name : String
  idKey : KeyPair
  deriving DecidableEq

namespace Association

/-- Whether two records agree; keys count by their public half. -/
def agrees (a b : Association) : Bool :=
  a.databaseId = b.databaseId && a.name = b.name && a.idKey.sameIdentity b.idKey

/-- How the association is shown to the proxy. -/
def connectionKey (a : Association) : ConnectionKey := ⟨a.name, a.idKey.publicKey.toBase64⟩

/-- The form in which the association is kept. -/
def toStored (a : Association) : StoredAssociation :=
  ⟨a.databaseId, a.name, a.idKey.secretBase64⟩

/-- The association that is kept in a form. -/
def ofStored (stored : StoredAssociation) : Except Error Association :=
  match KeyPair.ofSecretBase64 stored.idKey with
  | .ok idKey => .ok ⟨stored.databaseId, stored.name, idKey⟩
  | .error fault => .error (.store (.badKey stored.name fault))

/-- The association as a person is told of it, without its secret. -/
def describe (a : Association) : String :=
  "AssociationRecord \x7b database_id: " ++ Quoted.quote (redact a.databaseId)
    ++ ", name: " ++ Quoted.quote a.name
    ++ ", id_key: " ++ a.idKey.publicKey.describe ++ " \x7d"

end Association

end VaultLink
