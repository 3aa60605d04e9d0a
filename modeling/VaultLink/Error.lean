import VaultLink.Crypto.Fault
import VaultLink.Json.Shape
import VaultLink.Proxy.Action
import VaultLink.Proxy.ErrorCode
import VaultLink.Session.Phase
import VaultLink.Text.Duration
import VaultLink.Text.Redacted

/-!
# Errors

Why an operation of the client failed. Most kinds of error carry a cause of their own; all wording
is here. `Error.isFatal` tells whether the connection is beyond repair.
-/

namespace VaultLink

/-- The most bytes a message may have. -/
def maxMessageSize : Nat := 16 * 1024 * 1024

/-- What is wrong with the form of a message. -/
inductive Malformation where
  /-- Text or value without the shape that is wanted. -/
  | shape (misfit : Json.Misfit)
  /-- Received bytes that are not JSON. -/
  | unparsable (fault : Json.Fault)
  /-- An unfinished message of more than `maxMessageSize` bytes. -/
  | oversized
  /-- A message that is not UTF-8. -/
  | notUtf8 (fault : Utf8.Fault)
  | missingAction
  | unknownAction (name : String)
  /-- An error code that is no number; its written form. -/
  | badErrorCode (written : String)
  | missingNonce
  /-- A nonce of the wrong length. -/
  | badNonce (bytes : Nat)
  /-- A key exchange reply with a box. -/
  | boxInKeyExchange
  | badPublicKey (fault : Base64.Fault)
  /-- A public key in a reply that is no key exchange. -/
  | strayPublicKey (action : Action)
  | missingBox (action : Action)
  | badBox (fault : Base64.Fault)
  /-- A decrypted payload that is no object. -/
  | notAnObject
  /-- A cause in the words of a caller. -/
  | told (text : String)
  deriving DecidableEq, Repr

/-- The cause in words. -/
def Malformation.message : Malformation → String
  | shape misfit => misfit.message
  | unparsable fault => "unparsable data on stream: " ++ fault.message
  | oversized => s!"message exceeds {maxMessageSize} bytes"
  | notUtf8 fault => "message is not UTF-8: " ++ fault.message
  | missingAction => "missing action"
  | unknownAction name => s!"unknown action `{name}`"
  | badErrorCode written => s!"invalid errorCode: {written}"
  | missingNonce => "missing nonce"
  | badNonce bytes => (CryptoFault.invalidNonce bytes).message
  | boxInKeyExchange => "key exchange reply must not carry an encrypted message"
  | badPublicKey fault => "invalid publicKey: " ++ fault.message
  | strayPublicKey action => "unexpected publicKey in `" ++ action.wireName ++ "` reply"
  | missingBox action => "`" ++ action.wireName ++ "` reply without message"
  | badBox fault => "invalid message encoding: " ++ fault.message
  | notAnObject => "decrypted payload is not a JSON object"
  | told text => text

/-- How a message or a call breaks the rules of the exchange. -/
inductive Breach where
  /-- A request that never goes out encrypted. -/
  | unsendable (action : Action)
  | keyExchangeStarted (phase : Phase)
  | noKeyExchange (phase : Phase)
  /-- The reply to another action. -/
  | otherAction (wanted found : Action)
  /-- A reply that is not encrypted. -/
  | plaintextReply (found wanted : Action)
  /-- A reply whose nonce is not the one after the request's. -/
  | strayNonce (action : Action)
  /-- A reply whose box names another action; the written form of what it names. -/
  | namesAction (action : Action) (written : String)
  /-- A reply whose box carries another nonce. -/
  | foreignNonce (action : Action)
  /-- A reply that does not say that the request succeeded. -/
  | noSuccess (action : Action)
  | lacks (field : String)
  | noPassword
  | noResponse (action : Action)
  /-- A cause in the words of a caller. -/
  | told (text : String)
  deriving DecidableEq, Repr

/-- The cause in words. -/
def Breach.message : Breach → String
  | unsendable action => "`" ++ action.wireName ++ "` cannot be sent as an encrypted request"
  | keyExchangeStarted phase => "key exchange already started (" ++ phase.label ++ ")"
  | noKeyExchange phase => "no key exchange in progress (" ++ phase.label ++ ")"
  | otherAction wanted found =>
    "expected `" ++ wanted.wireName ++ "` reply, got `" ++ found.wireName ++ "`"
  | plaintextReply found wanted =>
    "plaintext `" ++ found.wireName ++ "` message in reply to `" ++ wanted.wireName ++ "`"
  | strayNonce action => "`" ++ action.wireName ++ "` reply nonce does not follow request nonce"
  | namesAction action written => "`" ++ action.wireName ++ "` reply names action " ++ written
  | foreignNonce action => "`" ++ action.wireName ++ "` reply carries a foreign nonce"
  | noSuccess action => "`" ++ action.wireName ++ "` reply does not report success"
  | lacks field => s!"reply lacks `{field}`"
  | noPassword => "`generate-password` reply carries no password"
  | noResponse action => "`" ++ action.wireName ++ "` reply carries no response"
  | told text => text

/-- Why a key exchange failed. -/
inductive HandshakeFault where
  /-- An earlier key exchange on the connection failed. -/
  | alreadyRejected
  /-- The proxy answered with an error. -/
  | proxyError (code : ErrorCode) (message : String)
  | unexpectedReply (action : Action)
  | refused
  /-- The reply's nonce is not the one after the request's. -/
  | strayNonce
  | noPublicKey
  | badPublicKey (fault : CryptoFault)
  /-- The proxy sent the client's own key back. -/
  | echoedKey
  | malformed (cause : Malformation)
  | breach (cause : Breach)
  /-- A cause in the words of a caller. -/
  | told (text : String)
  deriving DecidableEq, Repr

/-- The cause in words. -/
def HandshakeFault.message : HandshakeFault → String
  | alreadyRejected => "key exchange was rejected; reconnect"
  | proxyError code message => "proxy error " ++ code.text ++ ": " ++ message
  | unexpectedReply action => "unexpected `" ++ action.wireName ++ "` reply to key exchange"
  | refused => "proxy refused the key exchange"
  | strayNonce => "reply nonce does not follow request nonce"
  | noPublicKey => "reply carries no public key"
  | badPublicKey fault => fault.message
  | echoedKey => "proxy echoed our own public key"
  | malformed cause => cause.message
  | breach cause => cause.message
  | told text => text

/-- What did not happen in time. -/
inductive Lateness where
  /-- No reply to a request came. -/
  | noReply (action : Action) (wait : Duration)
  /-- No connection came about. -/
  | connecting (path : String)
  /-- What the proxy or a caller says was late. -/
  | told (text : String)
  deriving DecidableEq, Repr

/-- The cause in words. -/
def Lateness.message : Lateness → String
  | noReply action wait => "no `" ++ action.wireName ++ "` reply within " ++ wait.text
  | connecting path => s!"connecting to {path}"
  | told text => text

/-- Why the user did not approve an association. -/
inductive Denial where
  /-- The proxy says so. -/
  | told (text : String)
  /-- The user did not answer in time. -/
  | noAnswer (cause : Lateness)
  deriving DecidableEq, Repr

/-- The cause in words. -/
def Denial.message : Denial → String
  | told text => text
  | noAnswer cause => "no answer: " ++ cause.message

/-- Why there is no association to work with. -/
inductive Estrangement where
  /-- The proxy says so. -/
  | told (text : String)
  /-- No record is kept for the database. -/
  | noRecord (databaseId : String)
  /-- Another database was opened while a record was checked. -/
  | databaseChanged (name : String)
  /-- The proxy refused the record. -/
  | notAccepted (name : String)
  deriving DecidableEq, Repr

/-- The cause in words. -/
def Estrangement.message : Estrangement → String
  | told text => text
  | noRecord databaseId => "no association for database " ++ redact databaseId
  | databaseChanged name => s!"database changed while validating `{name}`"
  | notAccepted name => s!"association `{name}` is no longer accepted"

/-- Why the association store failed. -/
inductive StoreFault where
  /-- The file system refused an operation on a path. -/
  | system (path reason : String)
  /-- The file at a path does not hold associations. -/
  | unreadable (path : String) (misfit : Json.Misfit)
  /-- The secret of a stored association is no key. -/
  | badKey (name : String) (fault : CryptoFault)
  /-- A cause in the words of a caller. -/
  | told (text : String)
  deriving DecidableEq, Repr

/-- The cause in words. -/
def StoreFault.message : StoreFault → String
  | system path reason => s!"{path}: {reason}"
  | unreadable path misfit => s!"{path}: " ++ misfit.message
  | badKey name fault => s!"association `{name}` has a bad identification key: " ++ fault.message
  | told text => text

/-- Why a configuration cannot be used. -/
inductive ConfigFault where
  | zeroTimeout
  | emptySocketPath
  /-- A variable that should hold a number of seconds and does not. -/
  | notSeconds (name value : String)
  /-- A cause in the words of a caller. -/
  | told (text : String)
  deriving DecidableEq, Repr

/-- The cause in words. -/
def ConfigFault.message : ConfigFault → String
  | zeroTimeout => "timeouts must be greater than zero"
  | emptySocketPath => "socket path is empty"
  | notSeconds name value => s!"{name} must be a number of seconds, got `{value}`"
  | told text => text

/-- Why an operation failed. -/
inductive Error where
  /-- The stream to the proxy failed. -/
  | transport (text : String)
  /-- The proxy closed the stream. -/
  | disconnected
  /-- No reply came in time. -/
  | timeout (cause : Lateness)
  /-- The key exchange failed. -/
  | handshakeFailed (cause : HandshakeFault)
  /-- The key exchange has not taken place. -/
  | notEstablished
  /-- A box did not open. -/
  | authentication
  /-- A message without the form that is wanted. -/
  | malformedMessage (cause : Malformation)
  /-- The user did not approve an association. -/
  | associationDenied (cause : Denial)
  /-- There is no association to work with. -/
  | notAssociated (cause : Estrangement)
  /-- The database is locked. -/
  | databaseLocked
  /-- A message or a call broke the rules of the exchange. -/
  | protocol (cause : Breach)
  /-- The proxy refused the request for another reason. -/
  | rejected (code : ErrorCode) (message : String)
  /-- A cryptographic operation failed here. -/
  | crypto (cause : CryptoFault)
  /-- The association store failed. -/
  | store (cause : StoreFault)
  /-- The configuration cannot be used. -/
  | config (cause : ConfigFault)
  /-- A deadline lies beyond what the clock can show; the program stops. -/
  | deadlineOverflow
  deriving DecidableEq, Repr

namespace Error

/-- The error in words. -/
def message : Error → String
  | transport text => s!"transport error: {text}"
  | disconnected => "disconnected from proxy"
  | timeout cause => "timeout: " ++ cause.message
  | handshakeFailed cause => "handshake failed: " ++ cause.message
  | notEstablished => "session not established: call the key exchange first"
  | authentication => CryptoFault.authentication.message
  | malformedMessage cause => "malformed message: " ++ cause.message
  | associationDenied cause => "association denied: " ++ cause.message
  | notAssociated cause => "not associated: " ++ cause.message
  | databaseLocked => "database locked"
  | protocol cause => "protocol error: " ++ cause.message
  | rejected code message => "proxy error " ++ code.text ++ ": " ++ message
  | crypto cause => "crypto error: " ++ cause.message
  | store cause => "store error: " ++ cause.message
  | config cause => "configuration error: " ++ cause.message
  | deadlineOverflow => "overflow when adding duration to instant"

/-- The kind of the error in one word. -/
def label : Error → String
  | transport _ => "Transport"
  | disconnected => "Disconnected"
  | timeout _ => "Timeout"
  | handshakeFailed _ => "HandshakeFailed"
  | notEstablished => "NotEstablished"
  | authentication => "Authentication"
  | malformedMessage _ => "MalformedMessage"
  | associationDenied _ => "AssociationDenied"
  | notAssociated _ => "NotAssociated"
  | databaseLocked => "DatabaseLocked"
  | protocol _ => "Protocol"
  | rejected .. => "Rejected"
  | crypto _ => "Crypto"
  | store _ => "Store"
  | config _ => "Config"
  | deadlineOverflow => "DeadlineOverflow"

/-- Whether the connection is of no more use after the error. -/
def isFatal : Error → Bool
  | transport _ | disconnected | timeout _ | handshakeFailed _ | crypto _ | deadlineOverflow => true
  | _ => false

/-- The error of an operation whose cryptography failed: a box that does not open and a nonce of the
wrong length are the sender's doing. -/
def ofCrypto : CryptoFault → Error
  | .authentication => authentication
  | .invalidNonce bytes => malformedMessage (.badNonce bytes)
  | cause => crypto cause

/-- The error of a text or value without the shape that is wanted. -/
def ofMisfit (misfit : Json.Misfit) : Error := malformedMessage (.shape misfit)

/-- The error of a text that is not JSON. -/
def ofFault (fault : Json.Fault) : Error := ofMisfit (.notJson fault)

end Error

end VaultLink
