/-!
# Actions

What a message between client and proxy is about. An action has a name on the wire; the two signals
are sent by the proxy on its own account.

* `Action.wireName`, `Action.ofName?`: the names; `ofName?_eq_some_iff`: a name stands for exactly
  one action;
* `Action.isSignal`, `Action.promptsUser`, `Action.requiresAssociation`.
-/

namespace VaultLink

/-- What a message is about. -/
inductive Action where
  | changePublicKeys
  | getDatabaseHash
  | associate
  | testAssociate
  | getLogins
  | setLogin
  | getDatabaseGroups
  | generatePassword
  | lockDatabase
  | createNewGroup
  | getTotp
  | deleteEntry
  | requestAutotype
  | passkeysRegister
  | passkeysGet
  | databaseLocked
  | databaseUnlocked
  deriving DecidableEq, Repr

namespace Action

/-- Every action. -/
def all : List Action :=
  [changePublicKeys, getDatabaseHash, associate, testAssociate, getLogins, setLogin,
    getDatabaseGroups, generatePassword, lockDatabase, createNewGroup, getTotp, deleteEntry,
    requestAutotype, passkeysRegister, passkeysGet, databaseLocked, databaseUnlocked]

theorem mem_all (action : Action) : action ∈ all := by
  cases action <;> decide

/-- The name of an action on the wire. -/
def wireName : Action → String
  | changePublicKeys => "change-public-keys"
  | getDatabaseHash => "get-databasehash"
  | associate => "associate"
  | testAssociate => "test-associate"
  | getLogins => "get-logins"
  | setLogin => "set-login"
  | getDatabaseGroups => "get-database-groups"
  | generatePassword => "generate-password"
  | lockDatabase => "lock-database"
  | createNewGroup => "create-new-group"
  | getTotp => "get-totp"
  | deleteEntry => "delete-entry"
  | requestAutotype => "request-autotype"
  | passkeysRegister => "passkeys-register"
  | passkeysGet => "passkeys-get"
  | databaseLocked => "database-locked"
  | databaseUnlocked => "database-unlocked"

/-- The action with a name. -/
def ofName? (name : String) : Option Action := all.find? fun action => action.wireName = name

theorem wireName_injective {a b : Action} (h : a.wireName = b.wireName) : a = b := by
  cases a <;> cases b <;> first | rfl | exact absurd h (by decide)

theorem ofName?_eq_some_iff {name : String} {action : Action} :
    ofName? name = some action ↔ name = action.wireName := by
  constructor
  · intro h
    have := List.find?_some h
    simpa using (of_decide_eq_true this).symm
  · rintro rfl
    cases action <;> decide

/-- Whether the proxy sends the message on its own account. -/
def isSignal : Action → Bool
  | databaseLocked | databaseUnlocked => true
  | _ => false

/-- Whether the proxy may show the user a dialog before it answers. -/
def promptsUser : Action → Bool
  | associate | getLogins | setLogin | generatePassword | createNewGroup | deleteEntry
  | passkeysRegister | passkeysGet => true
  | _ => false

/-- Whether the proxy answers only a client that is associated with the open database. -/
def requiresAssociation : Action → Bool
  | getLogins | setLogin | getDatabaseGroups | createNewGroup | getTotp | deleteEntry
  | requestAutotype | passkeysRegister | passkeysGet => true
  | _ => false

/-- The action as a person is told of it. -/
def label : Action → String
  | changePublicKeys => "ChangePublicKeys"
  | getDatabaseHash => "GetDatabaseHash"
  | associate => "Associate"
  | testAssociate => "TestAssociate"
  | getLogins => "GetLogins"
  | setLogin => "SetLogin"
  | getDatabaseGroups => "GetDatabaseGroups"
  | generatePassword => "GeneratePassword"
  | lockDatabase => "LockDatabase"
  | createNewGroup => "CreateNewGroup"
  | getTotp => "GetTotp"
  | deleteEntry => "DeleteEntry"
  | requestAutotype => "RequestAutotype"
  | passkeysRegister => "PasskeysRegister"
  | passkeysGet => "PasskeysGet"
  | databaseLocked => "DatabaseLocked"
  | databaseUnlocked => "DatabaseUnlocked"

end Action

end VaultLink
