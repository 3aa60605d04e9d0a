import VaultLink.Text.Utf8

/-!
# Base64

The standard alphabet with `=` padding. Reading accepts the canonical text of a byte string and
nothing else: the padding must be there and the bits it leaves over must be zero.

* `encode`: the text of a byte string;
* `decode`: the byte string of a text, or the first fault; faults name the offending byte of the
  text and its offset.
-/

namespace VaultLink.Base64

/-- The symbol of a number below 64. -/
def symbol (n : Nat) : Char :=
  if n < 26 then Char.ofNat (n + 65)
  else if n < 52 then Char.ofNat (n + 71)
  else if n < 62 then Char.ofNat (n - 4)
  else if n = 62 then '+'
  else '/'

/-- The number a byte of text stands for, if it is a symbol. -/
def value? (b : UInt8) : Option Nat :=
  let n := b.toNat
  if 65 ≤ n ∧ n ≤ 90 then some (n - 65)
  else if 97 ≤ n ∧ n ≤ 122 then some (n - 71)
  else if 48 ≤ n ∧ n ≤ 57 then some (n + 4)
  else if n = 43 then some 62
  else if n = 47 then some 63
  else none

/-- The padding byte `=`. -/
def pad : UInt8 := 61

/-- The symbols of a byte string: four for three bytes, the last group padded. -/
def encodeChars : Bytes → List Char
  | [] => []
  | [a] => [symbol (a.toNat / 4), symbol (a.toNat % 4 * 16), '=', '=']
  | [a, b] =>
    [symbol (a.toNat / 4), symbol (a.toNat % 4 * 16 + b.toNat / 16), symbol (b.toNat % 16 * 4), '=']
  | a :: b :: c :: rest =>
    symbol (a.toNat / 4) :: symbol (a.toNat % 4 * 16 + b.toNat / 16)
      :: symbol (b.toNat % 16 * 4 + c.toNat / 64) :: symbol (c.toNat % 64) :: encodeChars rest

/-- The base64 text of a byte string. -/
def encode (bytes : Bytes) : String := String.ofList (encodeChars bytes)

/-- Why a text is not base64. -/
inductive Fault where
  /-- A byte that may not stand at this offset. -/
  | symbol (byte : UInt8) (offset : Nat)
  /-- The text ends after a single symbol of its last group. -/
  | length (symbols : Nat)
  /-- The last symbol leaves bits over that are not zero. -/
  | lastSymbol (byte : UInt8) (offset : Nat)
  /-- The last group is not filled up with padding. -/
  | padding
  deriving DecidableEq, Repr

/-- The fault in words. -/
def Fault.message : Fault → String
  | .symbol byte offset => s!"Invalid symbol {byte}, offset {offset}."
  | .length symbols => s!"Invalid input length: {symbols}"
  | .lastSymbol byte offset => s!"Invalid last symbol {byte}, offset {offset}."
  | .padding => "Invalid padding"

/-- The number of the symbol at an offset. -/
def valueAt (offset : Nat) (b : UInt8) : Except Fault Nat :=
  match value? b with
  | some n => .ok n
  | none => .error (.symbol b offset)

/-- The symbols of the last group, which starts at `offset`: each byte so far with the number it
stands for, and the offset of the first padding byte seen. -/
def lastSymbols (offset : Nat) : (index : Nat) → (padAt : Option Nat) → Bytes →
    Except Fault (List (UInt8 × Nat))
  | _, _, [] => .ok []
  | index, padAt, b :: rest =>
    if b = pad then
      if index < 2 then .error (.symbol pad (offset + index))
      else lastSymbols offset (index + 1) (padAt.or (some (offset + index))) rest
    else match padAt with
      | some first => .error (.symbol pad first)
      | none => do
        let n ← valueAt (offset + index) b
        let symbols ← lastSymbols offset (index + 1) none rest
        return (b, n) :: symbols

/-- The bytes of the last group of at most four bytes of text. -/
def decodeLast (offset : Nat) (group : Bytes) : Except Fault Bytes := do
  match ← lastSymbols offset 0 none group with
  | [] => return []
  | [_] => .error (.length (offset + 1))
  | [(_, x), (b, y)] =>
    if group.length ≠ 4 then .error .padding
    else if y % 16 ≠ 0 then .error (.lastSymbol b (offset + 1))
    else return [UInt8.ofNat (x * 4 + y / 16)]
  | [(_, x), (_, y), (b, z)] =>
    if group.length ≠ 4 then .error .padding
    else if z % 4 ≠ 0 then .error (.lastSymbol b (offset + 2))
    else return [UInt8.ofNat (x * 4 + y / 16), UInt8.ofNat (y % 16 * 16 + z / 4)]
  | (_, x) :: (_, y) :: (_, z) :: (_, w) :: _ =>
    return [UInt8.ofNat (x * 4 + y / 16), UInt8.ofNat (y % 16 * 16 + z / 4),
      UInt8.ofNat (z % 4 * 64 + w)]

/-- The bytes of a text whose first byte has the given offset. -/
def decodeFrom (offset : Nat) : Bytes → Except Fault Bytes
  | a :: b :: c :: d :: e :: rest => do
    let x ← valueAt offset a
    let y ← valueAt (offset + 1) b
    let z ← valueAt (offset + 2) c
    let w ← valueAt (offset + 3) d
    let tail ← decodeFrom (offset + 4) (e :: rest)
    return UInt8.ofNat (x * 4 + y / 16) :: UInt8.ofNat (y % 16 * 16 + z / 4)
      :: UInt8.ofNat (z % 4 * 64 + w) :: tail
  | group => decodeLast offset group

/-- The bytes of a text given by its own bytes. A last byte that stands alone in its group is
looked at before all others. -/
def decodeBytes (text : Bytes) : Except Fault Bytes :=
  match text.getLast? with
  | none => .ok []
  | some last =>
    if text.length % 4 = 1 ∧ last ≠ pad ∧ value? last = none then
      .error (.symbol last (text.length - 1))
    else decodeFrom 0 text

/-- The byte string that a base64 text stands for. -/
def decode (text : String) : Except Fault Bytes := decodeBytes (Utf8.encode text)

end VaultLink.Base64
