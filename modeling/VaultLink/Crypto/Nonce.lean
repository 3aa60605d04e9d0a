import VaultLink.Crypto.Entropy
import VaultLink.Crypto.Fault

/-!
# Nonces

A nonce is 24 bytes, read as a 192-bit number whose least significant byte comes first. A
sequencer hands out consecutive nonces and stops at the largest one instead of starting again.

* `Nonce.increment`, `Nonce.compareLE`: the successor, by carrying, and the order, from the most
  significant byte down;
* `Nonce.ofBase64`, `Nonce.toBase64`: the text form;
* `Sequencer.draw`: the next nonce.
-/

namespace VaultLink

/-- A nonce of 24 bytes. -/
abbrev Nonce := FixedBytes 24

namespace Nonce

/-- Adds one to a number of little-endian bytes; `none` if the carry runs past the last byte. -/
def incrementBytes : Bytes → Option Bytes
  | [] => none
  | b :: bs => if b = 255 then (incrementBytes bs).map (0 :: ·) else some ((b + 1) :: bs)

theorem length_incrementBytes {as bs : Bytes} (h : incrementBytes as = some bs) :
    bs.length = as.length := by
  induction as generalizing bs with
  | nil => cases h
  | cons a as ih =>
    unfold incrementBytes at h
    split at h
    · obtain ⟨cs, hcs, rfl⟩ := Option.map_eq_some_iff.1 h
      simp [ih hcs]
    · cases h; rfl

/-- The next nonce; the largest has none. -/
def increment (nonce : Nonce) : Option Nonce :=
  match h : incrementBytes nonce.bytes with
  | some bytes => some ⟨bytes, (length_incrementBytes h).trans nonce.length_bytes⟩
  | none => none

/-- The nonce `k` places further, starting again at zero after the largest. -/
def advance (k : Nat) (nonce : Nonce) : Nonce := .ofNatLE 24 (nonce.toNatLE + k)

/-- The order of byte strings of one length by their last bytes first. -/
def compareBytes : Bytes → Bytes → Ordering
  | a :: as, b :: bs => (compareBytes as bs).then (compare a b)
  | [], [] => .eq
  | [], _ :: _ => .lt
  | _ :: _, [] => .gt

/-- The order of nonces as numbers. -/
def compareLE (a b : Nonce) : Ordering := compareBytes a.bytes b.bytes

/-- The base64 text of a nonce. -/
def toBase64 (nonce : Nonce) : String := Base64.encode nonce.bytes

/-- The nonce of a base64 text. -/
def ofBase64 (text : String) : Except CryptoFault Nonce :=
  match Base64.decode text with
  | .error _ => .error (.invalidNonce 0)
  | .ok bytes =>
    match FixedBytes.ofBytes? 24 bytes with
    | some nonce => .ok nonce
    | none => .error (.invalidNonce bytes.length)

end Nonce

/-- Hands out consecutive nonces. -/
structure Sequencer where
  /-- The nonce to hand out next; `none` once the largest is gone. -/
  upcoming : Option Nonce
  /-- How many nonces were handed out. -/
  issued : Nat
  deriving DecidableEq

namespace Sequencer

/-- A sequencer whose first nonce is `seed`. -/
def new (seed : Nonce) : Sequencer := ⟨some seed, 0⟩

/-- A sequencer with a random first nonce. -/
def random (entropy : Entropy) : Sequencer × Entropy :=
  let (seed, entropy) := entropy.draw 24
  (new seed, entropy)

/-- The nonce that the next draw gives, if any is left. -/
def peek? (s : Sequencer) : Option Nonce := s.upcoming

/-- Hands out the next nonce. -/
def draw (s : Sequencer) : Except CryptoFault Nonce × Sequencer :=
  match s.upcoming with
  | none => (.error .nonceExhausted, s)
  | some nonce => (.ok nonce, ⟨nonce.increment, s.issued + 1⟩)

end Sequencer

end VaultLink
