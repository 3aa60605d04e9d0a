/-!
# Integers in text

Decimal integers as a person writes them: an optional sign and at least one ASCII digit, nothing
else. A value out of range is not read.
-/

namespace VaultLink.Integer

/-- The number of ASCII digits, of which there must be one. -/
def ofDigits? (cs : List Char) : Option Nat :=
  if cs.isEmpty || !cs.all Char.isDigit then none
  else some (cs.foldl (fun n c => 10 * n + (c.toNat - '0'.toNat)) 0)

/-- The integer of a text with an optional sign. -/
def ofSigned? : List Char → Option Int
  | '-' :: ds => (ofDigits? ds).map fun n => -(n : Int)
  | '+' :: ds => (ofDigits? ds).map Int.ofNat
  | ds => (ofDigits? ds).map Int.ofNat

/-- The integer of a text, if it fits 64 bits with a sign. -/
def signed64? (text : String) : Option Int :=
  (ofSigned? text.toList).filter fun i =>
    -9223372036854775808 ≤ i && i < 9223372036854775808

/-- The number of a text with an optional plus sign, if it fits 64 bits without a sign. -/
def unsigned64? (text : String) : Option Nat :=
  let digits := match text.toList with
    | '+' :: ds => ds
    | ds => ds
  (ofDigits? digits).filter fun n => n < Nat.pow 2 64

end VaultLink.Integer
