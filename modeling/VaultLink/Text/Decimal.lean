/-!
# Decimal digits of doubles

A finite double other than zero is `m * 2 ^ q`. Every real number nearer to it than to its
neighbours reads back as that double; `shortest` picks, among the decimals with the fewest digits
in that interval, the one nearest to the double itself.

* `decompose`: the fields of a double as numbers;
* `shortest`: the digits and the power of ten.
-/

namespace VaultLink.Decimal

/-- The parts of a finite double: its sign and the number `significand * 2 ^ exponent`. -/
structure Parts where
  /-- Whether the sign bit is set. -/
  negative : Bool
  significand : Nat
  exponent : Int
  /-- Whether the double below is only half as far away as the one above. -/
  narrowBelow : Bool

/-- The parts of a double, read from its bits. -/
def decompose (x : Float) : Parts :=
  let bits := x.toBits.toNat
  let fraction := bits % Nat.pow 2 52
  let field := bits / Nat.pow 2 52 % Nat.pow 2 11
  let negative := decide (bits / Nat.pow 2 63 = 1)
  if field = 0 then ⟨negative, fraction, -1074, false⟩
  else ⟨negative, fraction + Nat.pow 2 52, Int.ofNat field - 1075, fraction = 0 && 1 < field⟩

/-- A decimal number `digits * 10 ^ exponent`. -/
structure Number where
  digits : Nat
  exponent : Int
  deriving DecidableEq, Repr

/-- The exponent of the highest digit of the positive fraction `num / den`, counted from a first
guess that is at most `fuel` too low. -/
def magnitudeFrom (num den : Nat) : (fuel : Nat) → (guess : Int) → Int
  | 0, guess => guess
  | fuel + 1, guess =>
    let next := guess + 1
    let reached := if 0 ≤ next then den * Nat.pow 10 next.toNat ≤ num
      else den ≤ num * Nat.pow 10 (-next).toNat
    if reached then magnitudeFrom num den fuel next else guess

/-- The fraction `num / den` counted in units of `10 ^ unit`, as a fraction. -/
def inUnits (num den : Nat) (unit : Int) : Nat × Nat :=
  if 0 ≤ unit then (num, den * Nat.pow 10 unit.toNat) else (num * Nat.pow 10 (-unit).toNat, den)

/-- The interval of a double as three numbers over one denominator: its lower end, the double and
its upper end. -/
structure Interval where
  (low mid high den : Nat)
  /-- Whether the ends belong to it. -/
  closed : Bool

/-- The numbers that read back as `significand * 2 ^ exponent`. -/
def Parts.interval (p : Parts) : Interval :=
  let mid := 4 * p.significand
  let low := if p.narrowBelow then mid - 1 else mid - 2
  let high := mid + 2
  let closed := decide (p.significand % 2 = 0)
  let shift := p.exponent - 2
  if 0 ≤ shift then
    let f := Nat.pow 2 shift.toNat
    ⟨low * f, mid * f, high * f, 1, closed⟩
  else ⟨low, mid, high, Nat.pow 2 (-shift).toNat, closed⟩

/-- Whether `digits * 10 ^ unit` lies in the interval. -/
def Interval.holds (i : Interval) (unit : Int) (digits : Nat) : Bool :=
  let (low, den) := inUnits i.low i.den unit
  let (high, _) := inUnits i.high i.den unit
  if i.closed then low ≤ digits * den && digits * den ≤ high
  else low < digits * den && digits * den < high

/-- The multiple of `10 ^ unit` in the interval that is nearest to its middle number; of two equally
near ones the even one. -/
def Interval.nearest? (i : Interval) (unit : Int) : Option Nat :=
  let (mid, den) := inUnits i.mid i.den unit
  let below := mid / den
  let above := below + 1
  match i.holds unit below, i.holds unit above with
  | false, false => none
  | true, false => some below
  | false, true => some above
  | true, true =>
    let toBelow := mid - below * den
    let toAbove := above * den - mid
    if toBelow < toAbove then some below
    else if toAbove < toBelow then some above
    else if below % 2 = 0 then some below else some above

/-- Tries the unit of the highest digit and then smaller ones, at most `fuel` in all. -/
def Interval.search (i : Interval) : (fuel : Nat) → (unit : Int) → Number
  | 0, unit => ⟨0, unit⟩
  | fuel + 1, unit =>
    match i.nearest? unit with
    | some digits => ⟨digits, unit⟩
    | none => i.search fuel (unit - 1)

/-- Moves up to `fuel` zeros at the end of the digits into the exponent. -/
def Number.trim : (fuel : Nat) → Number → Number
  | 0, n => n
  | fuel + 1, n =>
    if n.digits % 10 = 0 ∧ n.digits ≠ 0 then trim fuel ⟨n.digits / 10, n.exponent + 1⟩ else n

/-- The decimal with the fewest digits that reads back as the number of the parts; seventeen digits
are enough for every double. -/
def shortest (p : Parts) : Number :=
  let i := p.interval
  let top := magnitudeFrom i.mid i.den 700 (-330)
  (i.search 18 top).trim 20

/-- The decimal digits of a number. -/
def digitsOf (n : Nat) : List Char := Nat.toDigits 10 n

/-- The digits of an integer, with a minus sign below zero. -/
def digitsOfInt (i : Int) : List Char :=
  if i < 0 then '-' :: digitsOf i.natAbs else digitsOf i.natAbs

end VaultLink.Decimal
