import VaultLink.Bytes

/-!
# Entropy

Randomness is drawn from an endless tape of bytes, so that a run is a function of its tape. Each
draw takes the next bytes in order.
-/

namespace VaultLink

/-- An endless tape of random bytes and how many of them are used up. -/
structure Entropy where
  /-- The byte at each place of the tape. -/
  tape : Nat → UInt8
  /-- The number of bytes drawn so far. -/
  position : Nat

namespace Entropy

/-- The tape that repeats a byte string for ever; an empty one counts as a single zero byte. -/
def ofBytes (bytes : Bytes) : Entropy :=
  let cells := bytes.toArray
  ⟨fun i => cells.getD (i % cells.size) 0, 0⟩

/-- The next `n` bytes, and the tape after them. -/
def draw (n : Nat) (entropy : Entropy) : FixedBytes n × Entropy :=
  (⟨(List.range n).map fun i => entropy.tape (entropy.position + i), by simp⟩,
    { entropy with position := entropy.position + n })

end Entropy

end VaultLink
