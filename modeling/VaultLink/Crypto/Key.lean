import VaultLink.Crypto.Curve25519
import VaultLink.Crypto.Entropy
import VaultLink.Crypto.Fault
import VaultLink.Crypto.Sha256

/-!
# Keys

Public keys and key pairs of a box. A secret is kept as its bytes were given; two key pairs count as
the same identity when their public keys agree.

* `PublicKey.ofBytes`, `PublicKey.ofBase64`, `PublicKey.toBase64`, `PublicKey.fingerprint`;
* `KeyPair.ofSecret`, `KeyPair.ofSecretBase64`, `KeyPair.secretBase64`, `KeyPair.generate`.
-/

namespace VaultLink

/-- The public half of a key pair. -/
structure PublicKey where
  /-- The coordinate of the point. -/
  point : FixedBytes 32
  deriving DecidableEq

namespace PublicKey

/-- The bytes of the key. -/
def bytes (key : PublicKey) : Bytes := key.point.bytes

/-- The public key of 32 bytes; any 32 bytes are one. -/
def ofBytes (bytes : Bytes) : Except CryptoFault PublicKey :=
  match FixedBytes.ofBytes? 32 bytes with
  | some point => .ok ⟨point⟩
  | none => .error (.invalidKey (.length bytes.length))

/-- The public key of a base64 text. -/
def ofBase64 (text : String) : Except CryptoFault PublicKey :=
  match Base64.decode text with
  | .error fault => .error (.invalidKey (.base64 fault))
  | .ok bytes => ofBytes bytes

/-- The base64 text of the key. -/
def toBase64 (key : PublicKey) : String := Base64.encode key.bytes

/-- The first eight bytes of the key's hash, in hexadecimal. -/
def fingerprint (key : PublicKey) : String := Bytes.toHex ((Sha256.digest key.bytes).take 8)

/-- The key as it is shown to a person. -/
def describe (key : PublicKey) : String := "PublicKey(" ++ key.toBase64 ++ ")"

end PublicKey

/-- A secret with its public key. -/
structure KeyPair where
  /-- The secret as it was given. -/
  secret : FixedBytes 32
  /-- The public key that belongs to the secret. -/
  publicKey : PublicKey
  publicKey_eq : publicKey = ⟨Curve25519.publicPoint secret⟩
  deriving DecidableEq

namespace KeyPair

/-- The key pair of a secret. -/
def ofSecret (secret : FixedBytes 32) : KeyPair := ⟨secret, _, rfl⟩

/-- A key pair is told by its secret. -/
theorem eq_ofSecret (keys : KeyPair) : keys = ofSecret keys.secret := by
  obtain ⟨secret, publicKey, rfl⟩ := keys
  rfl

/-- A new key pair. -/
def generate (entropy : Entropy) : KeyPair × Entropy :=
  let (secret, entropy) := entropy.draw 32
  (ofSecret secret, entropy)

/-- The key pair of a secret in base64. -/
def ofSecretBase64 (text : String) : Except CryptoFault KeyPair :=
  match Base64.decode text with
  | .error fault => .error (.invalidKey (.base64 fault))
  | .ok bytes =>
    match FixedBytes.ofBytes? 32 bytes with
    | some secret => .ok (ofSecret secret)
    | none => .error (.invalidKey .secretLength)

/-- The secret in base64. -/
def secretBase64 (keys : KeyPair) : String := Base64.encode keys.secret.bytes

/-- Whether two key pairs stand for one identity. -/
def sameIdentity (a b : KeyPair) : Bool := a.publicKey = b.publicKey

/-- The key pair as it is shown to a person, without its secret. -/
def describe (keys : KeyPair) : String :=
  "KeyPair \x7b public: " ++ keys.publicKey.describe ++ ", .. \x7d"

end KeyPair

end VaultLink
