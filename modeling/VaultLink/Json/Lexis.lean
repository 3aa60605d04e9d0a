import VaultLink.Json.Number
import VaultLink.Text.Utf8

/-!
# The words of JSON text

The bytes that have a meaning in JSON, and the readers of its smallest parts: blanks, the three
words, numerals and strings. Each reader answers what it read and the bytes after it.

* `readString`: the bytes of a string, its escapes resolved;
* `readNumeral`: a numeral by its parts.
-/

namespace VaultLink.Json

/-- The byte of an ASCII character. -/
def byteOf (c : Char) : UInt8 := c.toNat.toUInt8

/-- Whether a byte is a blank between the parts of JSON text. -/
def isSpace (b : UInt8) : Bool := b = 0x20 || b = 0x0A || b = 0x09 || b = 0x0D

/-- Whether a byte is a decimal digit. -/
def isDigit (b : UInt8) : Bool := 0x30 ≤ b && b ≤ 0x39

/-- The number of a decimal digit. -/
def digitValue (b : UInt8) : Nat := b.toNat - 0x30

/-- The bytes after the blanks at the front. -/
def skipSpace (bs : Bytes) : Bytes := bs.dropWhile isSpace

/-- The number of a hexadecimal digit of either case. -/
def hexValue? (b : UInt8) : Option Nat :=
  let n := b.toNat
  if 0x30 ≤ n ∧ n ≤ 0x39 then some (n - 0x30)
  else if 0x41 ≤ n ∧ n ≤ 0x46 then some (n - 0x37)
  else if 0x61 ≤ n ∧ n ≤ 0x66 then some (n - 0x57)
  else none

/-- The number of four hexadecimal digits. -/
def hexFour? (a b c d : UInt8) : Option Nat := do
  let a ← hexValue? a
  let b ← hexValue? b
  let c ← hexValue? c
  let d ← hexValue? d
  return 4096 * a + 256 * b + 16 * c + d

/-- The byte that an escape of one letter stands for. -/
def simpleEscape? (b : UInt8) : Option UInt8 :=
  if b = 0x22 || b = 0x5C || b = 0x2F then some b
  else if b = 0x62 then some 0x08
  else if b = 0x66 then some 0x0C
  else if b = 0x6E then some 0x0A
  else if b = 0x72 then some 0x0D
  else if b = 0x74 then some 0x09
  else none

/-- Whether a number is the first half of a surrogate pair. -/
def isHighSurrogate (n : Nat) : Bool := 0xD800 ≤ n && n ≤ 0xDBFF

/-- Whether a number is the second half of a surrogate pair. -/
def isLowSurrogate (n : Nat) : Bool := 0xDC00 ≤ n && n ≤ 0xDFFF

/-- The character of a surrogate pair. -/
def pairValue (high low : Nat) : Nat := (high - 0xD800) * 1024 + (low - 0xDC00) + 0x10000

/-- Puts the bytes of a character in front of bytes that are kept in reverse. -/
def pushChar (acc : Bytes) (n : Nat) : Bytes :=
  (String.utf8EncodeChar (Char.ofNat n)).reverse ++ acc

/-- The bytes of a string up to its closing quote, and the bytes after that. What was read so far
is in `acc`, in reverse. -/
def readStringFrom (acc : Bytes) : Bytes → Except Fault (Bytes × Bytes)
  | [] => .error .endInString
  | b :: rest =>
    if b = 0x22 then .ok (acc.reverse, rest)
    else if b < 0x20 then .error .controlCharacter
    else if b = 0x5C then
      match rest with
      | [] => .error .endInString
      | e :: rest =>
        if e = 0x75 then
          match rest with
          | h1 :: h2 :: h3 :: h4 :: rest =>
            match hexFour? h1 h2 h3 h4 with
            | none => .error .badEscape
            | some n =>
              if isLowSurrogate n then .error .loneSurrogate
              else if isHighSurrogate n then
                match rest with
                | [] => .error .endInString
                | c :: rest =>
                  if c ≠ 0x5C then .error .endOfEscape
                  else match rest with
                    | [] => .error .endInString
                    | u :: rest =>
                      if u ≠ 0x75 then .error .endOfEscape
                      else match rest with
                        | l1 :: l2 :: l3 :: l4 :: rest =>
                          match hexFour? l1 l2 l3 l4 with
                          | none => .error .badEscape
                          | some low =>
                            if isLowSurrogate low then
                              readStringFrom (pushChar acc (pairValue n low)) rest
                            else .error .loneSurrogate
                        | _ => .error .endInString
              else readStringFrom (pushChar acc n) rest
          | _ => .error .endInString
        else match simpleEscape? e with
          | some c => readStringFrom (c :: acc) rest
          | none => .error .badEscape
    else readStringFrom (b :: acc) rest

/-- The text of a string whose opening quote is read already, and the bytes after it. -/
def readString (bs : Bytes) : Except Fault (String × Bytes) := do
  let (body, rest) ← readStringFrom [] bs
  match Utf8.decode? body with
  | some text => return (text, rest)
  | none => .error .badText

/-- The bytes after a word, of which `word` is still to come. -/
def readWord : (word : Bytes) → Bytes → Except Fault Bytes
  | [], bs => .ok bs
  | _ :: _, [] => .error .endInValue
  | w :: ws, b :: bs => if w = b then readWord ws bs else .error .badWord

/-- The digits at the front and the bytes after them. -/
def spanDigits (bs : Bytes) : List Nat × Bytes :=
  ((bs.takeWhile isDigit).map digitValue, bs.dropWhile isDigit)

/-- One digit at least, and the bytes after the digits. -/
def readDigits (bs : Bytes) : Except Fault (List Nat × Bytes) :=
  match spanDigits bs with
  | ([], []) => .error .endInValue
  | ([], _) => .error .badNumber
  | found => .ok found

/-- The digits before the point: a lone zero, or digits that do not start with one. -/
def readWhole (bs : Bytes) : Except Fault (List Nat × Bytes) := do
  match ← readDigits bs with
  | (0 :: _ :: _, _) => .error .badNumber
  | found => return found

/-- The digits after a point, if a point is there. -/
def readFraction : Bytes → Except Fault (Option (List Nat) × Bytes)
  | 0x2E :: rest => do
    let (ds, rest) ← readDigits rest
    return (some ds, rest)
  | bs => .ok (none, bs)

/-- The sign and the digits of an exponent, if one is there. -/
def readExponent (bs : Bytes) : Except Fault (Option (Bool × List Nat) × Bytes) :=
  match bs with
  | b :: rest =>
    if b = 0x65 || b = 0x45 then
      let (down, rest) := match rest with
        | 0x2B :: rest => (false, rest)
        | 0x2D :: rest => (true, rest)
        | rest => (false, rest)
      do
        let (ds, rest) ← readDigits rest
        return (some (down, ds), rest)
    else .ok (none, bs)
  | [] => .ok (none, [])

/-- A numeral and the bytes after it. -/
def readNumeral (bs : Bytes) : Except Fault (Numeral × Bytes) := do
  let (negative, bs) := match bs with
    | 0x2D :: rest => (true, rest)
    | bs => (false, bs)
  let (whole, bs) ← readWhole bs
  let (fraction, bs) ← readFraction bs
  let (exponent, bs) ← readExponent bs
  return (⟨negative, whole, fraction, exponent⟩, bs)

/-- A number and the bytes after it. -/
def readNumber (bs : Bytes) : Except Fault (Number × Bytes) := do
  let (numeral, rest) ← readNumeral bs
  let number ← numeral.value
  return (number, rest)

end VaultLink.Json
