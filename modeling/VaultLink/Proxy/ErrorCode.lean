import VaultLink.Text.Decimal

/-!
# Error codes of the proxy

The numbers with which the proxy says why it refuses a request. Nineteen of them have a meaning;
every other one is kept as it is. `code_ofCode`: the number of a code survives.
-/

namespace VaultLink

/-- Why the proxy refuses a request. -/
inductive ErrorCode where
  | databaseNotOpened
  | databaseHashNotReceived
  | clientPublicKeyNotReceived
  | cannotDecryptMessage
  | timeoutOrNotConnected
  | actionCancelledOrDenied
  | cannotEncryptMessage
  | associationFailed
  | keyChangeFailed
  | encryptionKeyUnrecognized
  | noSavedDatabasesFound
  | incorrectAction
  | emptyMessageReceived
  | noUrlProvided
  | noLoginsFound
  | noGroupsFound
  | cannotCreateNewGroup
  | noValidUuidProvided
  | accessToAllEntriesDenied
  /-- A number without a meaning of its own. -/
  | other (code : Int)
  deriving DecidableEq, Repr

namespace ErrorCode

/-- The code with a number. -/
def ofCode : Int → ErrorCode
  | 1 => databaseNotOpened
  | 2 => databaseHashNotReceived
  | 3 => clientPublicKeyNotReceived
  | 4 => cannotDecryptMessage
  | 5 => timeoutOrNotConnected
  | 6 => actionCancelledOrDenied
  | 7 => cannotEncryptMessage
  | 8 => associationFailed
  | 9 => keyChangeFailed
  | 10 => encryptionKeyUnrecognized
  | 11 => noSavedDatabasesFound
  | 12 => incorrectAction
  | 13 => emptyMessageReceived
  | 14 => noUrlProvided
  | 15 => noLoginsFound
  | 16 => noGroupsFound
  | 17 => cannotCreateNewGroup
  | 18 => noValidUuidProvided
  | 19 => accessToAllEntriesDenied
  | code => other code

/-- The number of a code. -/
def code : ErrorCode → Int
  | databaseNotOpened => 1
  | databaseHashNotReceived => 2
  | clientPublicKeyNotReceived => 3
  | cannotDecryptMessage => 4
  | timeoutOrNotConnected => 5
  | actionCancelledOrDenied => 6
  | cannotEncryptMessage => 7
  | associationFailed => 8
  | keyChangeFailed => 9
  | encryptionKeyUnrecognized => 10
  | noSavedDatabasesFound => 11
  | incorrectAction => 12
  | emptyMessageReceived => 13
  | noUrlProvided => 14
  | noLoginsFound => 15
  | noGroupsFound => 16
  | cannotCreateNewGroup => 17
  | noValidUuidProvided => 18
  | accessToAllEntriesDenied => 19
  | other code => code

theorem code_ofCode (n : Int) : (ofCode n).code = n := by
  unfold ofCode
  split <;> rfl

/-- The number as text. -/
def text (c : ErrorCode) : String := String.ofList (Decimal.digitsOfInt c.code)

/-- The code as a person is told of it. -/
def label : ErrorCode → String
  | databaseNotOpened => "DatabaseNotOpened"
  | databaseHashNotReceived => "DatabaseHashNotReceived"
  | clientPublicKeyNotReceived => "ClientPublicKeyNotReceived"
  | cannotDecryptMessage => "CannotDecryptMessage"
  | timeoutOrNotConnected => "TimeoutOrNotConnected"
  | actionCancelledOrDenied => "ActionCancelledOrDenied"
  | cannotEncryptMessage => "CannotEncryptMessage"
  | associationFailed => "AssociationFailed"
  | keyChangeFailed => "KeyChangeFailed"
  | encryptionKeyUnrecognized => "EncryptionKeyUnrecognized"
  | noSavedDatabasesFound => "NoSavedDatabasesFound"
  | incorrectAction => "IncorrectAction"
  | emptyMessageReceived => "EmptyMessageReceived"
  | noUrlProvided => "NoUrlProvided"
  | noLoginsFound => "NoLoginsFound"
  | noGroupsFound => "NoGroupsFound"
  | cannotCreateNewGroup => "CannotCreateNewGroup"
  | noValidUuidProvided => "NoValidUuidProvided"
  | accessToAllEntriesDenied => "AccessToAllEntriesDenied"
  | other code => "Other(" ++ String.ofList (Decimal.digitsOfInt code) ++ ")"

end ErrorCode

end VaultLink
