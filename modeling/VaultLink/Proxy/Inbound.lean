import VaultLink.Crypto.Nonce
import VaultLink.Json.Reader
import VaultLink.Proxy.Failure

/-!
# Messages from the proxy

A message from the proxy is a reply to the key exchange, a box, a refusal or a signal. Which one it is
follows from its action and from the members it has; members with unknown names do not count.

* `InboundFields.read`: the known members of a message;
* `Inbound.decode`: the message of a text.
-/

namespace VaultLink

/-- A notice that the proxy sends on its own account. -/
inductive Signal where
  | databaseLocked
  | databaseUnlocked
  deriving DecidableEq, Repr

namespace Signal

/-- The action of a signal. -/
def action : Signal → Action
  | databaseLocked => .databaseLocked
  | databaseUnlocked => .databaseUnlocked

/-- The signal of an action. -/
def ofAction? : Action → Option Signal
  | .databaseLocked => some databaseLocked
  | .databaseUnlocked => some databaseUnlocked
  | _ => none

/-- The signal as a person is told of it. -/
def label (signal : Signal) : String := signal.action.label

end Signal

/-- The proxy's reply to the key exchange. -/
structure KeyExchangeReply where
  success : Bool
  publicKey : Option Bytes
  version : Option String
  nonce : Nonce
  deriving DecidableEq

/-- A reply in a box. -/
structure BoxedReply where
  action : Action
  nonce : Nonce
  box : Bytes
  deriving DecidableEq

/-- A message from the proxy. -/
inductive Inbound where
  | keyExchange (reply : KeyExchangeReply)
  | encrypted (reply : BoxedReply)
  | failure (failure : Failure)
  | signal (signal : Signal)
  deriving DecidableEq

/-- The action of a message. -/
def Inbound.action : Inbound → Action
  | keyExchange _ => .changePublicKeys
  | encrypted reply => reply.action
  | failure f => f.action
  | signal s => s.action

/-- The known members of a message; `null` counts as none. -/
structure InboundFields where
  action : Option String := none
  publicKey : Option String := none
  nonce : Option String := none
  message : Option String := none
  success : Option Json := none
  version : Option String := none
  error : Option String := none
  errorCode : Option Json := none

namespace InboundFields

open Json (Reader Record Field)

/-- Reads a field with `reader` and puts it into the record with `put`. -/
def into {α : Type} (reader : Reader α) (put : InboundFields → α → InboundFields)
    (fields : InboundFields) : Reader InboundFields := fun depth bs => do
  let (a, rest) ← reader depth bs
  return (put fields a, rest)

/-- The members of a message in order. -/
def shape : Record (InboundFields → Reader InboundFields) InboundFields where
  name := "RawInbound"
  blank := {}
  fields :=
    let text := Reader.optional Reader.string
    let any := Reader.optional Reader.value
    [⟨"action", .optional, into text fun r x => { r with action := x }⟩,
      ⟨"publicKey", .optional, into text fun r x => { r with publicKey := x }⟩,
      ⟨"nonce", .optional, into text fun r x => { r with nonce := x }⟩,
      ⟨"message", .optional, into text fun r x => { r with message := x }⟩,
      ⟨"success", .optional, into any fun r x => { r with success := x }⟩,
      ⟨"version", .optional, into text fun r x => { r with version := x }⟩,
      ⟨"error", .optional, into text fun r x => { r with error := x }⟩,
      ⟨"errorCode", .optional, into any fun r x => { r with errorCode := x }⟩]

/-- The known members of the message of a text. -/
def read (text : String) : Except Json.Misfit InboundFields :=
  (Reader.record shape).whole (Utf8.encode text)

end InboundFields

namespace Inbound

/-- An error of a message without the form that is wanted. -/
def malformed {α : Type} (cause : Malformation) : Except Error α := .error (.malformedMessage cause)

/-- The nonce of a message. -/
def readNonce : Option String → Except Error Nonce
  | none => malformed .missingNonce
  | some text =>
    match Nonce.ofBase64 text with
    | .ok nonce => .ok nonce
    | .error (.invalidNonce bytes) => malformed (.badNonce bytes)
    | .error fault => malformed (.told fault.message)

/-- The reply to the key exchange. -/
def readKeyExchange (fields : InboundFields) : Except Error Inbound := do
  if fields.message.isSome then malformed .boxInKeyExchange
  let publicKey ← match fields.publicKey with
    | none => pure none
    | some text =>
      match Base64.decode text with
      | .ok bytes => pure (some bytes)
      | .error fault => malformed (.badPublicKey fault)
  let nonce ← readNonce fields.nonce
  return .keyExchange ⟨(fields.success.map Json.truthy).getD false, publicKey, fields.version, nonce⟩

/-- A reply in a box. -/
def readBoxed (action : Action) (fields : InboundFields) : Except Error Inbound := do
  if fields.publicKey.isSome then malformed (.strayPublicKey action)
  let box ← match fields.message with
    | none => malformed (.missingBox action)
    | some text =>
      match Base64.decode text with
      | .ok bytes => pure bytes
      | .error fault => malformed (.badBox fault)
  let nonce ← readNonce fields.nonce
  return .encrypted ⟨action, nonce, box⟩

/-- The message that the known members make. A signal is told by its action alone; any other
message with an error or a code is a refusal. -/
def ofFields (fields : InboundFields) : Except Error Inbound := do
  let name ← match fields.action with
    | some name => pure name
    | none => malformed .missingAction
  let action ← match Action.ofName? name with
    | some action => pure action
    | none => malformed (.unknownAction name)
  match Signal.ofAction? action with
  | some s => return .signal s
  | none =>
    if fields.error.isSome || fields.errorCode.isSome then
      return .failure (← Failure.ofParts action fields.errorCode (fields.error.getD ""))
    else if action = .changePublicKeys then readKeyExchange fields
    else readBoxed action fields

/-- The message of a text. -/
def decode (text : String) : Except Error Inbound :=
  match InboundFields.read text with
  | .ok fields => ofFields fields
  | .error misfit => .error (.ofMisfit misfit)

end Inbound

end VaultLink
