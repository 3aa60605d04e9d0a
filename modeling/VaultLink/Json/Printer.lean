import VaultLink.Json.Lexis

/-!
# Writing values

The JSON text of a value, either without any blanks or indented by two spaces a level. Members come
in the order in which the value lists them, and every character stands for itself except quotes,
backslashes and control characters.

* `quote`: the bytes of a string; `render`: the compact text; `pretty`: the indented text.
-/

namespace VaultLink.Json

/-- The bytes of a text of ASCII characters. -/
def ascii (cs : List Char) : Bytes := cs.map byteOf

/-- The lower-case hexadecimal digit of a number below 16. -/
def hexByte (n : Nat) : UInt8 := byteOf (Nat.digitChar n)

/-- The written form of one byte inside a string. -/
def escapeByte (b : UInt8) : Bytes :=
  if b = 0x22 || b = 0x5C then [0x5C, b]
  else if b = 0x08 then [0x5C, 0x62]
  else if b = 0x0C then [0x5C, 0x66]
  else if b = 0x0A then [0x5C, 0x6E]
  else if b = 0x0D then [0x5C, 0x72]
  else if b = 0x09 then [0x5C, 0x74]
  else if b < 0x20 then
    [0x5C, 0x75, 0x30, 0x30, hexByte (b.toNat / 16), hexByte (b.toNat % 16)]
  else [b]

/-- The bytes of a string between its quotes. -/
def quote (text : String) : Bytes := 0x22 :: ((Utf8.encode text).flatMap escapeByte ++ [0x22])

/-- The written form of a value that has no parts. -/
def word : Bool → Bytes
  | true => ascii ['t', 'r', 'u', 'e']
  | false => ascii ['f', 'a', 'l', 's', 'e']

/-- The written form of an absent value. -/
def nullWord : Bytes := ascii ['n', 'u', 'l', 'l']

mutual

/-- The compact text of a value. -/
def render : Json → Bytes
  | .null => nullWord
  | .bool b => word b
  | .number n => ascii n.chars
  | .string s => quote s
  | .array items => 0x5B :: (renderItems true items ++ [0x5D])
  | .object members => 0x7B :: (renderMembers true members ++ [0x7D])

/-- The items of a list, each with a comma before it unless it is the first of all. -/
def renderItems (first : Bool) : List Json → Bytes
  | [] => []
  | item :: items =>
    (if first then [] else [0x2C]) ++ render item ++ renderItems false items

/-- The members of an object, each with a comma before it unless it is the first of all. -/
def renderMembers (first : Bool) : List (String × Json) → Bytes
  | [] => []
  | (name, value) :: members =>
    (if first then [] else [0x2C]) ++ quote name ++ 0x3A :: render value
      ++ renderMembers false members

end

/-- A line break and the indentation of a level. -/
def newline (level : Nat) : Bytes := 0x0A :: List.replicate (2 * level) 0x20

mutual

/-- The text of a value with one item or member a line; `level` is the indentation of the line on
which the value starts. -/
def prettyAt (level : Nat) : Json → Bytes
  | .null => nullWord
  | .bool b => word b
  | .number n => ascii n.chars
  | .string s => quote s
  | .array [] => [0x5B, 0x5D]
  | .array items => 0x5B :: (prettyItems (level + 1) true items ++ newline level ++ [0x5D])
  | .object [] => [0x7B, 0x7D]
  | .object members =>
    0x7B :: (prettyMembers (level + 1) true members ++ newline level ++ [0x7D])

/-- The items of a list, each on a line of its own. -/
def prettyItems (level : Nat) (first : Bool) : List Json → Bytes
  | [] => []
  | item :: items =>
    (if first then [] else [0x2C]) ++ newline level ++ prettyAt level item
      ++ prettyItems level false items

/-- The members of an object, each on a line of its own. -/
def prettyMembers (level : Nat) (first : Bool) : List (String × Json) → Bytes
  | [] => []
  | (name, value) :: members =>
    (if first then [] else [0x2C]) ++ newline level ++ quote name ++ [0x3A, 0x20]
      ++ prettyAt level value ++ prettyMembers level false members

end

/-- The indented text of a value. -/
def pretty (value : Json) : Bytes := prettyAt 0 value

/-- The compact text of a value as a string. -/
def text (value : Json) : String := Utf8.decodeLossy (render value)

end VaultLink.Json
