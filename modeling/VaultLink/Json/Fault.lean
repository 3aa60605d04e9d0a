/-!
# Faults in JSON text

Why a text is not JSON. A fault is a truncation when some longer text could still be JSON as far as
the reader could see; only then does a stream wait for more bytes.
-/

namespace VaultLink.Json

/-- Why a text is not JSON. -/
inductive Fault where
  /-- The text ends inside a list. -/
  | endInList
  /-- The text ends inside an object. -/
  | endInObject
  /-- The text ends inside a string. -/
  | endInString
  /-- The text ends where a value is missing or unfinished. -/
  | endInValue
  /-- A name without a colon after it. -/
  | missingColon
  /-- An item followed by neither a comma nor the end of the list. -/
  | afterItem
  /-- A member followed by neither a comma nor the end of the object. -/
  | afterMember
  /-- A misspelt `true`, `false` or `null`. -/
  | badWord
  /-- Something else where a value should start. -/
  | missingValue
  /-- An unknown escape in a string, or one without its digits. -/
  | badEscape
  /-- A number without a digit where one must stand, or with a leading zero. -/
  | badNumber
  /-- A number beyond the largest double. -/
  | hugeNumber
  /-- A string that is not UTF-8. -/
  | badText
  /-- A raw control character in a string. -/
  | controlCharacter
  /-- An object member whose name is not a string. -/
  | badName
  /-- A second surrogate without a first, or a first with something else after it. -/
  | loneSurrogate
  /-- A first surrogate without an escape after it. -/
  | endOfEscape
  /-- A comma with nothing after it. -/
  | trailingComma
  /-- Something after the end of the value. -/
  | trailing
  /-- Too many containers inside one another. -/
  | tooDeep
  deriving DecidableEq, Repr

namespace Fault

/-- The fault in words. -/
def message : Fault → String
  | endInList => "EOF while parsing a list"
  | endInObject => "EOF while parsing an object"
  | endInString => "EOF while parsing a string"
  | endInValue => "EOF while parsing a value"
  | missingColon => "expected `:`"
  | afterItem => "expected `,` or `]`"
  | afterMember => "expected `,` or `\x7d`"
  | badWord => "expected ident"
  | missingValue => "expected value"
  | badEscape => "invalid escape"
  | badNumber => "invalid number"
  | hugeNumber => "number out of range"
  | badText => "invalid unicode code point"
  | controlCharacter => "control character (\\u0000-\\u001F) found while parsing a string"
  | badName => "key must be a string"
  | loneSurrogate => "lone leading surrogate in hex escape"
  | endOfEscape => "unexpected end of hex escape"
  | trailingComma => "trailing comma"
  | trailing => "trailing characters"
  | tooDeep => "recursion limit exceeded"

/-- Whether the text only ends too early. -/
def isTruncation : Fault → Bool
  | endInList | endInObject | endInString | endInValue => true
  | _ => false

end Fault

end VaultLink.Json
