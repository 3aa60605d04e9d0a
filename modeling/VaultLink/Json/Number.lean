import VaultLink.Json.Basic
import VaultLink.Json.Fault
import VaultLink.Text.Decimal

/-!
# Numbers in JSON text

What a numeral means and how a number is written. A numeral without a fraction or an exponent is an
integer if it fits 64 bits; every other numeral is a double, made from at most the digits that an
unsigned 64-bit number holds and a power of ten.

* `Numeral`, `Numeral.value`: a numeral by its parts, and its number;
* `Number.chars`: the written form, integers in full and doubles with the fewest digits that read
  back.
-/

namespace VaultLink.Json

/-- A numeral by its parts. -/
structure Numeral where
  /-- Whether it starts with a minus sign. -/
  negative : Bool
  /-- The digits before the point. -/
  whole : List Nat
  /-- The digits after the point, if there is one. -/
  fraction : Option (List Nat)
  /-- The sign and the digits of the exponent, if there is one; true for a minus sign. -/
  exponent : Option (Bool × List Nat)

namespace Numeral

/-- Appends digits to a number while it stays below `2 ^ 64`; also how many found room. -/
def absorb (acc : Nat) : List Nat → Nat × Nat
  | [] => (acc, 0)
  | d :: ds =>
    if acc * 10 + d < Nat.pow 2 64 then
      let (n, count) := absorb (acc * 10 + d) ds
      (n, count + 1)
    else (acc, 0)

/-- The number of a list of digits. -/
def ofDigits (ds : List Nat) : Nat := ds.foldl (fun n d => 10 * n + d) 0

/-- A power of ten as a double. -/
def powerOfTen (k : Nat) : Float := Float.ofScientific 1 false k

/-- A double times a power of ten, or `none` beyond the largest double. The step by `10 ^ 308` runs
at most `fuel` times; three leave nothing of a 64-bit number. -/
def scale : (fuel : Nat) → Float → Int → Option Float
  | 0, x, _ => some x
  | fuel + 1, x, e =>
    if e.natAbs ≤ 308 then
      if 0 ≤ e then
        let y := x * powerOfTen e.natAbs
        if y.isInf then none else some y
      else some (x / powerOfTen e.natAbs)
    else if x == 0 then some x
    else if 0 ≤ e then none
    else scale fuel (x / powerOfTen 308) (e + 308)

/-- The number of the significant digits that are kept, the power of ten they are in units of, and
whether every digit before the point was kept. -/
def significand (n : Numeral) : Nat × Int × Bool :=
  let (whole, kept) := absorb 0 n.whole
  let (all, used) := absorb whole (n.fraction.getD [])
  (all, (n.whole.length - kept : Nat) - (used : Int), kept = n.whole.length)

/-- The double of the numeral. -/
def toDouble (n : Numeral) : Except Fault Float :=
  let (digits, unit, _) := n.significand
  let signed (x : Float) : Float := if n.negative then -x else x
  let at_ (e : Int) : Except Fault Float :=
    match scale 4 (UInt64.ofNat digits).toFloat e with
    | some x => .ok (signed x)
    | none => .error .hugeNumber
  match n.exponent with
  | none => at_ unit
  | some (down, ds) =>
    let e := ofDigits ds
    if Nat.pow 2 31 ≤ e then
      if digits ≠ 0 ∧ !down then .error .hugeNumber else .ok (signed 0)
    else at_ (if down then unit - e else unit + e)

/-- The number that the numeral stands for. Minus zero is a double. -/
def value (n : Numeral) : Except Fault Number :=
  let (digits, _, whole) := n.significand
  if n.fraction.isNone && n.exponent.isNone && whole && !(n.negative && digits = 0) then
    match WideInt.ofInt? (if n.negative then -(digits : Int) else digits) with
    | some i => .ok (.int i)
    | none => .float <$> n.toDouble
  else .float <$> n.toDouble

end Numeral

namespace Number

/-- A decimal with a point or an exponent: positional from a hundred-thousandth up to sixteen
digits before the point, and with a signed exponent beyond. -/
def layout (n : Decimal.Number) : List Char :=
  let ds := Decimal.digitsOf n.digits
  let point : Int := ds.length + n.exponent
  if -5 < point ∧ point ≤ 16 then
    if 0 ≤ n.exponent then ds ++ List.replicate n.exponent.toNat '0' ++ ['.', '0']
    else if 0 < point then ds.take point.toNat ++ '.' :: ds.drop point.toNat
    else '0' :: '.' :: (List.replicate (-point).toNat '0' ++ ds)
  else
    let tail := match ds.drop 1 with
      | [] => []
      | more => '.' :: more
    let e := point - 1
    ds.take 1 ++ tail ++ 'e' :: (if e < 0 then '-' else '+') :: Decimal.digitsOf e.natAbs

/-- The written form of a double: the fewest digits that read back. -/
def floatChars (x : Float) : List Char :=
  let p := Decimal.decompose x
  let body := if p.significand = 0 then ['0', '.', '0'] else layout (Decimal.shortest p)
  if p.negative then '-' :: body else body

/-- The written form of a number. -/
def chars : Number → List Char
  | .int i => Decimal.digitsOfInt i.val
  | .float x => floatChars x

/-- The number as a signed 64-bit integer, if it is one. -/
def toSigned? : Number → Option Int
  | .int i => i.toSigned?
  | .float _ => none

end Number

end VaultLink.Json
