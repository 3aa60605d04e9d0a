import VaultLink.Error
import VaultLink.Json.Printer
import VaultLink.Text.Blank
import VaultLink.Text.Integer

/-!
# Refusals

The proxy refuses a request with a code and a text, either in the open or inside a box. The code is a
number or a string that holds one; `Failure.error` says which error it means for a request.
-/

namespace VaultLink

/-- The code that a value stands for. -/
def ErrorCode.ofJson (value : Json) : Except Error ErrorCode :=
  let number := match value with
    | .number n => n.toSigned?
    | .string s => Integer.signed64? (Blank.trim s)
    | _ => none
  match number with
  | some n => .ok (.ofCode n)
  | none => .error (.malformedMessage (.badErrorCode value.text))

/-- A refused request. -/
structure Failure where
  action : Action
  code : ErrorCode
  message : String
  deriving DecidableEq, Repr

/-- The error that a refusal means. A refused or failed association is the user's answer when the
request was to associate; otherwise a failed one means that the client is not associated. -/
def Failure.error (f : Failure) : Error :=
  match f.code with
  | .databaseNotOpened => .databaseLocked
  | .timeoutOrNotConnected => .timeout (.told f.message)
  | .cannotDecryptMessage | .encryptionKeyUnrecognized => .authentication
  | .actionCancelledOrDenied =>
    if f.action = .associate then .associationDenied (.told f.message)
    else .rejected f.code f.message
  | .associationFailed =>
    if f.action = .associate then .associationDenied (.told f.message)
    else .notAssociated (.told f.message)
  | code => .rejected code f.message

/-- The refusal that an error text and an optional code make. -/
def Failure.ofParts (action : Action) (code : Option Json) (message : String) :
    Except Error Failure := do
  let code ← match code with
    | some value => ErrorCode.ofJson value
    | none => pure (.other 0)
  return ⟨action, code, message⟩

end VaultLink
