import VaultLink.Text.Base64

/-!
# What can go wrong in cryptography

The causes of a failed key import, nonce import, encryption or decryption, and their wording.
-/

namespace VaultLink

/-- Why bytes or text are not a key. -/
inductive KeyFault where
  /-- A public key of the wrong length. -/
  | length (bytes : Nat)
  /-- A text that is not base64. -/
  | base64 (fault : Base64.Fault)
  /-- A secret key of the wrong length. -/
  | secretLength
  /-- A cause in the words of a caller. -/
  | told (text : String)
  deriving DecidableEq, Repr

/-- The fault in words. -/
def KeyFault.message : KeyFault → String
  | .length bytes => s!"expected 32 bytes, got {bytes}"
  | .base64 fault => "invalid base64: " ++ fault.message
  | .secretLength => "invalid secret key length: expected 32 bytes"
  | .told text => text

/-- Why a cryptographic operation gave no result. -/
inductive CryptoFault where
  /-- The tag did not verify; nothing was decrypted. -/
  | authentication
  /-- Nothing was encrypted. -/
  | encryption
  /-- A key that cannot be used. -/
  | invalidKey (cause : KeyFault)
  /-- A nonce of the wrong length; zero for a text that is not base64. -/
  | invalidNonce (bytes : Nat)
  /-- The nonce counter has reached its end. -/
  | nonceExhausted
  /-- A cause in the words of a caller. -/
  | told (text : String)
  deriving DecidableEq, Repr

/-- The fault in words. -/
def CryptoFault.message : CryptoFault → String
  | .authentication => "authentication failed: message could not be decrypted"
  | .encryption => "encryption failed"
  | .invalidKey cause => "invalid key: " ++ cause.message
  | .invalidNonce bytes => s!"invalid nonce length: expected 24 bytes, got {bytes}"
  | .nonceExhausted => "nonce space exhausted"
  | .told text => text

/-- The kind of the fault in one word. -/
def CryptoFault.label : CryptoFault → String
  | .authentication => "Authentication"
  | .encryption => "Encryption"
  | .invalidKey _ => "InvalidKey"
  | .invalidNonce _ => "InvalidNonce"
  | .nonceExhausted => "NonceExhausted"
  | .told _ => "Other"

end VaultLink
