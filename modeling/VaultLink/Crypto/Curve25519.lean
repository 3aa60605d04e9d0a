import VaultLink.Bytes

/-!
# Curve25519

Multiplication of a point, given by its `u` coordinate, by a number, on the Montgomery ladder over
the field of `2 ^ 255 - 19` elements. The multiplier of a secret is the clamped secret reduced
modulo the order of the base point, so that points outside the group of the base point have
products too.
-/

namespace VaultLink.Curve25519

/-- The size of the field. -/
def prime : Nat := Nat.pow 2 255 - 19

/-- The order of the group that the base point generates. -/
def order : Nat := Nat.pow 2 252 + 27742317777372353535851937790883648493

/-- The difference in the field. -/
def sub (a b : Nat) : Nat := (a + (prime - b % prime)) % prime

/-- The product in the field. -/
def mul (a b : Nat) : Nat := a * b % prime

/-- The bits of a number below `2 ^ 255`, the highest first. -/
def bits (n : Nat) : List Bool := (List.range 255).map fun i => n.testBit (254 - i)

/-- A power in the field; the exponent is below `2 ^ 255`. -/
def pow (base exponent : Nat) : Nat :=
  (bits exponent).foldl (fun acc bit => if bit then mul (mul acc acc) base else mul acc acc) 1

/-- The inverse in the field; zero for zero. -/
def inverse (a : Nat) : Nat := pow a (prime - 2)

/-- A multiple of the point and the next multiple, each as a fraction `x / z`. -/
structure Rung where
  (x2 z2 x3 z3 : Nat)

/-- Doubles the first multiple and adds the two, for a point with coordinate `u`. -/
def Rung.up (u : Nat) (r : Rung) : Rung :=
  let a := r.x2 + r.z2
  let b := sub r.x2 r.z2
  let aa := mul a a
  let bb := mul b b
  let e := sub aa bb
  let da := mul (sub r.x3 r.z3) a
  let cb := mul (r.x3 + r.z3) b
  ⟨mul aa bb, mul e (aa + 121665 * e), mul (da + cb) (da + cb),
    mul u (mul (sub da cb) (sub da cb))⟩

/-- Exchanges the two multiples. -/
def Rung.swap (r : Rung) : Rung := ⟨r.x3, r.z3, r.x2, r.z2⟩

/-- One bit of the multiplier: from `n` and `n + 1` times the point to `2 n + bit` and the next. -/
def Rung.step (u : Nat) (r : Rung) (bit : Bool) : Rung :=
  if bit then (r.swap.up u).swap else r.up u

/-- The `u` coordinate of a multiple of the point with coordinate `u`. -/
def multiply (n u : Nat) : Nat :=
  let r := (bits n).foldl (Rung.step u) ⟨1, 0, u, 1⟩
  mul r.x2 (inverse r.z2)

/-- The secret with its three lowest bits cleared, its highest bit cleared and the next one set. -/
def clamp (secret : FixedBytes 32) : Nat :=
  let n := secret.toNatLE % Nat.pow 2 254
  n - n % 8 + Nat.pow 2 254

/-- The multiplier that a secret stands for. -/
def scalar (secret : FixedBytes 32) : Nat := clamp secret % order

/-- The field element of a point's bytes; the highest bit is ignored. -/
def coordinate (point : FixedBytes 32) : Nat := point.toNatLE % Nat.pow 2 255 % prime

/-- The product of a secret and a point. -/
def agree (secret point : FixedBytes 32) : FixedBytes 32 :=
  .ofNatLE 32 (multiply (scalar secret) (coordinate point))

/-- The product of a secret and the base point, whose coordinate is 9. -/
def publicPoint (secret : FixedBytes 32) : FixedBytes 32 :=
  .ofNatLE 32 (multiply (scalar secret) 9)

end VaultLink.Curve25519
