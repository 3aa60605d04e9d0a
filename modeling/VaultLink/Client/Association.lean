import VaultLink.Client.Exchange

/-!
# Associating with a database

Privileged requests need an association that the proxy has accepted on this connection. Associating
asks the user; afterwards the record is checked again on every connection, and one that the proxy
refuses is removed.

* `Client.getDatabaseHash`, `Client.associate`, `Client.testAssociate`, `Client.testAssociation`;
* `Client.ensureAssociated`: what every privileged request does first.
-/

namespace VaultLink.Client

variable {σ : Type} [AssociationStore σ]

/-- Asks for the hash of the open database. -/
def getDatabaseHash (triggerUnlock : Bool) : Run σ String := do
  let reply ← roundTrip .getDatabaseHash [] triggerUnlock
  let hash ← ofExcept (requireText reply "hash")
  modify fun c =>
    { c with
      databaseHash := some hash
      association := if c.databaseHash = some hash then c.association else .unknown }
  return hash

/-- The error of an association that was not answered. -/
def associateError : Error → Error
  | .timeout cause => .associationDenied (.noAnswer cause)
  | e => e

/-- Asks the user to associate the client with the open database. -/
def associate : Run σ Association := do
  ensureEstablished
  let (idKey, entropy) := KeyPair.generate (← get).entropy
  modify fun c => { c with entropy }
  let fields := Json.Members.ofList
    [("key", .string (← get).session.keys.publicKey.toBase64),
      ("idKey", .string idKey.publicKey.toBase64)]
  let reply ← tryCatch (roundTrip .associate fields false) fun e => throw (associateError e)
  let databaseId ← ofExcept (requireText reply "hash")
  let name ← ofExcept (requireText reply "id")
  let record : Association := { databaseId, name, idKey }
  onRegistry (Registry.insert record)
  modify fun c => { c with databaseHash := some databaseId, association := .validated }
  return record

/-- What the reply to a check says of a record, by the database that it reports, if it reports one:
that of the record validates the association. -/
def judgeDatabase (record : Association) (reply : Json.Members) : Run σ TestOutcome := do
  match reply.get? "hash" >>= Json.asString? with
  | some hash =>
    modify fun c => { c with databaseHash := some hash }
    if hash ≠ record.databaseId then
      modify fun c => { c with association := .unknown }
      return .invalid
  | none => pure ()
  if (← get).databaseHash = some record.databaseId then
    modify fun c => { c with association := .validated }
  return .valid

/-- What the reply to a check says of a record. It may name another association. -/
def judgeTest (record : Association) (reply : Json.Members) : Run σ TestOutcome :=
  match reply.get? "id" >>= Json.asString? with
  | some id => if id ≠ record.name then return .invalid else judgeDatabase record reply
  | none => judgeDatabase record reply

/-- Asks whether the proxy still accepts an association. -/
def testAssociate (record : Association) : Run σ TestOutcome := do
  ensureEstablished
  let fields := Json.Members.ofList
    [("id", .string record.name), ("key", .string record.idKey.publicKey.toBase64)]
  let reply ← tryCatch (some <$> roundTrip .testAssociate fields false) fun
    | .notAssociated _ => pure none
    | e => throw e
  match reply with
  | none => return .invalid
  | some reply => judgeTest record reply

/-- Asks whether the proxy still accepts the association with a database. -/
def testAssociation (databaseId : String) : Run σ TestOutcome := do
  ensureEstablished
  match (← get).registry.lookup databaseId with
  | some record => testAssociate record
  | none => return .notFound

/-- The hash of the current database; asks for it if it is not known. -/
def currentDatabase : Run σ String := do
  match (← get).databaseHash with
  | some hash => return hash
  | none => getDatabaseHash (← get).config.triggerUnlock

/-- Makes sure that the association with the open database was accepted on this connection. A record
that the proxy refuses is removed, unless another database was opened meanwhile. -/
def ensureAssociated : Run σ Association := do
  ensureEstablished
  let hash ← currentDatabase
  match (← get).registry.lookup hash with
  | none =>
    modify fun c => { c with association := .notAssociated }
    throw (.notAssociated (.noRecord hash))
  | some record =>
    if (← get).association = .validated then return record
    match ← testAssociate record with
    | .valid =>
      modify fun c => { c with association := .validated }
      return record
    | _ =>
      if (← get).databaseHash ≠ some hash then
        throw (.notAssociated (.databaseChanged record.name))
      let _ ← onRegistry (Registry.evict hash)
      modify fun c => { c with association := .notAssociated }
      throw (.notAssociated (.notAccepted record.name))

/-- The connection key of the association with the current database. -/
def exportConnection (c : Client σ) : Option ConnectionKey := do
  let hash ← c.databaseHash
  let record ← c.registry.lookup hash
  return record.connectionKey

end VaultLink.Client
