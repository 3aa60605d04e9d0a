import VaultLink.Bytes

/-!
# Poly1305

The tag of a message under a one-time key: the message, cut into blocks of 16 bytes that each get a
one bit on top, is a polynomial; its value at the first half of the key, modulo `2 ^ 130 - 5`, plus
the second half is the tag.
-/

namespace VaultLink.Poly1305

/-- The size of the field. -/
def prime : Nat := Nat.pow 2 130 - 5

/-- The bits that the point of evaluation may have. -/
def clampMask : Nat := 0x0ffffffc0ffffffc0ffffffc0fffffff

/-- The number of a block with a one bit above its bytes. -/
def blockValue (block : Bytes) : Nat := block.toNatLE + Nat.pow 256 block.length

/-- Goes on evaluating the polynomial with the `count` blocks left in `rest`. -/
def evaluate (r : Nat) : (count acc : Nat) → (rest : Bytes) → Nat
  | 0, acc, _ => acc
  | count + 1, acc, rest =>
    evaluate r count ((acc + blockValue (rest.take 16)) * r % prime) (rest.drop 16)

/-- The tag of a message under a one-time key. -/
def tag (key : FixedBytes 32) (message : Bytes) : FixedBytes 16 :=
  let r := Bytes.toNatLE (key.bytes.take 16) &&& clampMask
  let s := Bytes.toNatLE (key.bytes.drop 16)
  .ofNatLE 16 (evaluate r ((message.length + 15) / 16) 0 message + s)

end VaultLink.Poly1305
