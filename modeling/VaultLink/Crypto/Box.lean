import VaultLink.Crypto.Key
import VaultLink.Crypto.Nonce
import VaultLink.Crypto.Poly1305
import VaultLink.Crypto.Salsa20

/-!
# Boxes

A box holds a message from one key pair to another: a tag of 16 bytes and then the message under
the keystream of the box key. Both ends derive the same box key, so each can open what either has
sealed.

* `Box.key`: the box key of a secret and a peer's public key;
* `Box.sealWith`, `Box.openWith`: sealing and opening under a box key;
* `Box.encrypt`, `Box.decrypt`: the same for a key pair and a peer.
-/

namespace VaultLink.Box

/-- The length of a tag. -/
def tagSize : Nat := 16

/-- The key that two parties share. -/
def key (own : KeyPair) (peer : PublicKey) : FixedBytes 32 :=
  Salsa20.derive (Curve25519.agree own.secret peer.point) (.replicate 16 0)

/-- The one-time key of a message's tag: the first 32 bytes of the keystream. -/
def tagKey (key : FixedBytes 32) (nonce : Nonce) : FixedBytes 32 :=
  ⟨Salsa20.keystream key nonce 32, Salsa20.length_keystream key nonce 32⟩

/-- A message under the keystream that follows the tag's key. -/
def mask (key : FixedBytes 32) (nonce : Nonce) (message : Bytes) : Bytes :=
  message.xor ((Salsa20.keystream key nonce (32 + message.length)).drop 32)

/-- The box of a message under a box key. -/
def sealWith (key : FixedBytes 32) (nonce : Nonce) (message : Bytes) : Bytes :=
  let body := mask key nonce message
  (Poly1305.tag (tagKey key nonce) body).bytes ++ body

/-- The message of a box under a box key, if its tag verifies. -/
def openWith (key : FixedBytes 32) (nonce : Nonce) (box : Bytes) : Option Bytes :=
  if box.length < tagSize then none
  else
    let body := box.drop tagSize
    if (Poly1305.tag (tagKey key nonce) body).bytes = box.take tagSize then
      some (mask key nonce body)
    else none

/-- The box of a message to a peer. -/
def encrypt (own : KeyPair) (peer : PublicKey) (nonce : Nonce) (message : Bytes) : Bytes :=
  sealWith (key own peer) nonce message

/-- The message of a box between a key pair and a peer. -/
def decrypt (own : KeyPair) (peer : PublicKey) (nonce : Nonce) (box : Bytes) :
    Except CryptoFault Bytes :=
  match openWith (key own peer) nonce box with
  | some message => .ok message
  | none => .error .authentication

end VaultLink.Box
