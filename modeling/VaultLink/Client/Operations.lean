import VaultLink.Client.Association
import VaultLink.Vault.Group
import VaultLink.Vault.Login

/-!
# What a client can ask for

Logins, groups, passwords and passkeys. Requests that concern the content of the database first make
sure of the association.
-/

namespace VaultLink.Client

variable {σ α : Type} [AssociationStore σ]

/-- A privileged request: one that is sent only with an accepted association. -/
def privileged (action : Action) (fields : Client σ → Json.Members) : Run σ Json.Members := do
  let _ ← ensureAssociated
  roundTrip action (fields (← get)) false

/-- A value read into the shape that is wanted. -/
def conform (reader : Json.Conform α) (value : Json) : Run σ α :=
  match reader value with
  | .ok a => pure a
  | .error misfit => throw (.ofMisfit misfit)

/-- The result of an operation, or a result of its own for one code of refusal. -/
def unlessRejected (code : ErrorCode) (instead : α) (operation : Run σ α) : Run σ α :=
  tryCatch operation fun e =>
    match e with
    | .rejected found _ => if found = code then pure instead else throw e
    | _ => throw e

/-- Asks for a new password. -/
def generatePassword : Run σ String := do
  let reply ← roundTrip .generatePassword [] false
  match generatedPassword? reply with
  | some password => return password
  | none => throw (.protocol .noPassword)

/-- Asks for the entries of a url. -/
def getLogins (query : LoginQuery) : Run σ (List LoginEntry) := do
  let _ ← ensureAssociated
  let fields := query.fields (← get).registry.exportKeys
  let entries ← unlessRejected .noLoginsFound none do
    let reply ← roundTrip .getLogins fields false
    return reply.get? "entries"
  match entries with
  | none => return []
  | some entries => conform LoginEntry.listOfJson entries

/-- Looks for an entry of a url with a password, and with a login if one is given. -/
def findLogin (url : String) (login : Option String) (password : String) : Run σ FoundLogin := do
  let entries ← getLogins { url }
  return FoundLogin.among entries login password

/-- Creates or changes an entry; its identifier, if it is known. -/
def setLogin (update : LoginUpdate) : Run σ (Option String) := do
  let record ← ensureAssociated
  let id := (update.id.filter (!·.isEmpty)).getD record.name
  let reply ← roundTrip .setLogin (update.fields id) false
  let uuid := (reply.get? "uuid" >>= Json.asString?).filter (!·.isEmpty)
  return uuid.or update.uuid

/-- Asks for the groups of the database. -/
def getDatabaseGroups : Run σ GroupTree := do
  let _ ← ensureAssociated
  let groups ← unlessRejected .noGroupsFound none do
    let reply ← roundTrip .getDatabaseGroups [] false
    return reply.get? "groups" >>= Json.get? "groups"
  match groups with
  | none => return {}
  | some groups => return { groups := ← conform Group.ofList groups }

/-- Creates a group by its path; groups that are there stay. -/
def createNewGroup (name : String) : Run σ NewGroup := do
  let reply ← privileged .createNewGroup fun _ => [("groupName", .string name)]
  let name ← ofExcept (requireText reply "name")
  let uuid ← ofExcept (requireText reply "uuid")
  return { name, uuid }

/-- Asks for the one-time password of an entry; empty if it has none. -/
def getTotp (uuid : String) : Run σ String := do
  let reply ← privileged .getTotp fun _ => [("uuid", .string uuid)]
  return (reply.get? "totp" >>= Json.asString?).getD ""

/-- Deletes an entry. -/
def deleteEntry (uuid : String) : Run σ Unit := do
  let _ ← privileged .deleteEntry fun _ => [("uuid", .string uuid)]

/-- Asks for text to be typed into the window that a search finds. -/
def requestAutotype (search : String) : Run σ Unit := do
  let _ ← privileged .requestAutotype fun _ => [("search", .string search)]

/-- Locks the database. The proxy reports the lock as an error; so it does for a database that is
not open. -/
def lockDatabase : Run σ Unit := do
  tryCatch (do let _ ← roundTrip .lockDatabase [] false) fun e =>
    match e with
    | .databaseLocked => pure ()
    | .rejected .databaseHashNotReceived _ => pure ()
    | e => throw e
  forgetDatabase

/-- A request about passkeys; the proxy's response. -/
def passkeys (action : Action) (publicKey : Json) (origin : String) : Run σ Json := do
  let reply ← privileged action fun c => Json.Members.ofList
    [("publicKey", publicKey), ("origin", .string origin),
      ("keys", .array (c.registry.exportKeys.map ConnectionKey.toJson))]
  match reply.get? "response" with
  | some response => return response
  | none => throw (.protocol (.noResponse action))

/-- Registers a passkey. -/
def passkeysRegister (publicKey : Json) (origin : String) : Run σ Json :=
  passkeys .passkeysRegister publicKey origin

/-- Asks for a passkey's assertion. -/
def passkeysGet (publicKey : Json) (origin : String) : Run σ Json :=
  passkeys .passkeysGet publicKey origin

end VaultLink.Client
