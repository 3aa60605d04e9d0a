import VaultLink.Association.Record

/-!
# Logins

The entries that the proxy finds for a url, and the requests for finding, creating and changing them.

* `LoginEntry.listOfJson`: the entries of a reply;
* `LoginQuery.fields`, `LoginUpdate.fields`: the payloads of the requests.
-/

namespace VaultLink

open Json (Misfit Members Conform)

/-- An entry found for a url. -/
structure LoginEntry where
  login : String := ""
  name : String := ""
  password : String := ""
  uuid : String := ""
  group : Option String := none
  totp : Option String := none
  expired : Bool := false
  skipAutoSubmit : Bool := false
  stringFields : List Json := []

namespace LoginEntry

/-- Reads a field with `reader` and puts it into the entry with `put`. -/
def into {α : Type} (reader : Conform α) (put : LoginEntry → α → LoginEntry)
    (entry : LoginEntry) : Conform LoginEntry := fun value => do
  let a ← reader value
  return put entry a

/-- The fields of an entry in order; each can be left out. -/
def shape : Json.Record (LoginEntry → Conform LoginEntry) LoginEntry where
  name := "LoginEntry"
  blank := {}
  fields :=
    [⟨"login", .defaulted, into Conform.string fun r x => { r with login := x }⟩,
      ⟨"name", .defaulted, into Conform.string fun r x => { r with name := x }⟩,
      ⟨"password", .defaulted, into Conform.string fun r x => { r with password := x }⟩,
      ⟨"uuid", .defaulted, into Conform.string fun r x => { r with uuid := x }⟩,
      ⟨"group", .defaulted, into (Conform.optional Conform.string) fun r x => { r with group := x }⟩,
      ⟨"totp", .defaulted, into (Conform.optional Conform.string) fun r x => { r with totp := x }⟩,
      ⟨"expired", .defaulted, into Conform.flag fun r x => { r with expired := x }⟩,
      ⟨"skipAutoSubmit", .defaulted,
        into Conform.flag fun r x => { r with skipAutoSubmit := x }⟩,
      ⟨"stringFields", .defaulted,
        into (Conform.list .ok) fun r x => { r with stringFields := x }⟩]

/-- Reads an entry. -/
def ofJson : Conform LoginEntry := Conform.record shape

/-- Reads a list of entries. -/
def listOfJson : Conform (List LoginEntry) := Conform.list ofJson

end LoginEntry

/-- A question for the entries of a url. -/
structure LoginQuery where
  url : String
  submitUrl : Option String := none
  /-- Whether entries for HTTP authentication are wanted too. -/
  httpAuth : Bool := false

/-- The payload of the question, with the connection keys of all associations. -/
def LoginQuery.fields (query : LoginQuery) (keys : List ConnectionKey) : Members :=
  Members.ofList
    [("url", .string query.url),
      ("submitUrl", .string (query.submitUrl.getD query.url)),
      ("httpAuth", .bool query.httpAuth),
      ("keys", .array (keys.map ConnectionKey.toJson))]

/-- An entry to create, or to change if it has an identifier. -/
structure LoginUpdate where
  url : String
  submitUrl : Option String := none
  /-- The name of the association; the one in use if it is left out or empty. -/
  id : Option String := none
  login : String
  password : String
  group : Option String := none
  groupUuid : Option String := none
  uuid : Option String := none

/-- The payload of the request under the name of an association. -/
def LoginUpdate.fields (update : LoginUpdate) (id : String) : Members :=
  Members.ofList
    ([("url", .string update.url),
      ("submitUrl", .string (update.submitUrl.getD update.url)),
      ("id", .string id),
      ("login", .string update.login),
      ("password", .string update.password),
      ("group", .string (update.group.getD "")),
      ("groupUuid", .string (update.groupUuid.getD ""))]
      ++ match update.uuid with
        | some uuid => [("uuid", .string uuid)]
        | none => [])

/-- Whether an entry is there, and its identifier. -/
structure FoundLogin where
  found : Bool := false
  uuid : Option String := none

/-- Whether one of the entries has this password, and this login if one is given. -/
def FoundLogin.among (entries : List LoginEntry) (login : Option String) (password : String) :
    FoundLogin :=
  match entries.find? fun entry =>
      login.all (entry.login = ·) && entry.password = password with
  | some entry => ⟨true, some entry.uuid⟩
  | none => {}

/-- The name and the identifier of a group that was created. -/
structure NewGroup where
  name : String
  uuid : String
  deriving DecidableEq, Repr

namespace NewGroup

/-- The fields of a created group. -/
def shape : Json.Record (NewGroup → Conform NewGroup) NewGroup where
  name := "NewGroup"
  blank := ⟨"", ""⟩
  fields :=
    [⟨"name", .required, fun r value => do
        let name ← Conform.string value
        return { r with name }⟩,
      ⟨"uuid", .required, fun r value => do
        let uuid ← Conform.string value
        return { r with uuid }⟩]

/-- Reads a created group. -/
def ofJson : Conform NewGroup := Conform.record shape

end NewGroup

/-- The password in a reply of the generator: that of the first entry if it has one, and otherwise
the reply's own. -/
def generatedPassword? (reply : Members) : Option String :=
  let ofEntry := do
    let entries ← reply.get? "entries" >>= Json.asArray?
    let entry ← entries.head?
    entry.get? "password"
  (ofEntry.or (reply.get? "password")) >>= Json.asString?

end VaultLink
