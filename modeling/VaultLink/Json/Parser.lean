import VaultLink.Json.Lexis

/-!
# Reading values

The value that a JSON text stands for. Up to 127 containers may stand inside one another. Of two
members with the same name the later one counts.

* `nextItem`, `nextName`: how the items of a list and the members of an object follow each other;
* `readValue`: the value at the front of a text; `parse`: the value of a whole text.
-/

namespace VaultLink.Json

/-- How many containers may stand inside one another. -/
def depthLimit : Nat := 127

/-- What comes next inside a container. -/
inductive Turn where
  /-- One more item or member, at the front of these bytes. -/
  | another (bs : Bytes)
  /-- The container is closed; the bytes after it. -/
  | closed (rest : Bytes)

/-- What comes next inside a list; `first` right after its opening. -/
def nextItem (first : Bool) (bs : Bytes) : Except Fault Turn :=
  match skipSpace bs with
  | [] => .error .endInList
  | b :: rest =>
    if b = 0x5D then .ok (.closed rest)
    else if first then .ok (.another (b :: rest))
    else if b = 0x2C then
      match skipSpace rest with
      | [] => .error .endInValue
      | c :: rest => if c = 0x5D then .error .trailingComma else .ok (.another (c :: rest))
    else .error .afterItem

/-- What comes next inside an object, where a member starts after the opening quote of its name. -/
def nextName (first : Bool) (bs : Bytes) : Except Fault Turn :=
  match skipSpace bs with
  | [] => .error .endInObject
  | b :: rest =>
    if b = 0x7D then .ok (.closed rest)
    else if first then
      if b = 0x22 then .ok (.another rest) else .error .badName
    else if b = 0x2C then
      match skipSpace rest with
      | [] => .error .endInValue
      | c :: rest =>
        if c = 0x22 then .ok (.another rest)
        else if c = 0x7D then .error .trailingComma
        else .error .badName
    else .error .afterMember

/-- The bytes after the colon that follows a name. -/
def readColon (bs : Bytes) : Except Fault Bytes :=
  match skipSpace bs with
  | [] => .error .endInObject
  | b :: rest => if b = 0x3A then .ok rest else .error .missingColon

/-- The name of a member whose opening quote is read already, and the bytes after its colon. -/
def readName (bs : Bytes) : Except Fault (String × Bytes) := do
  let (name, rest) ← readString bs
  let rest ← readColon rest
  return (name, rest)

mutual

/-- The value at the front of a text, with room for `depth` containers. Each call for a part takes
one from `fuel`; twice the number of bytes is enough. -/
def valueFrom : (fuel depth : Nat) → Bytes → Except Fault (Json × Bytes)
  | 0, _, _ => .error .endInValue
  | fuel + 1, depth, bs =>
    match skipSpace bs with
    | [] => .error .endInValue
    | b :: rest =>
      if b = 0x22 then do
        let (text, rest) ← readString rest
        return (.string text, rest)
      else if b = 0x7B then
        match depth with
        | 0 => .error .tooDeep
        | depth + 1 => do
          let (members, rest) ← membersFrom fuel depth true [] rest
          return (.object (Members.ofList members), rest)
      else if b = 0x5B then
        match depth with
        | 0 => .error .tooDeep
        | depth + 1 => do
          let (items, rest) ← itemsFrom fuel depth true rest
          return (.array items, rest)
      else if b = 0x2D || isDigit b then do
        let (n, rest) ← readNumber (b :: rest)
        return (.number n, rest)
      else if b = 0x6E then do
        let rest ← readWord [0x75, 0x6C, 0x6C] rest
        return (.null, rest)
      else if b = 0x74 then do
        let rest ← readWord [0x72, 0x75, 0x65] rest
        return (.bool true, rest)
      else if b = 0x66 then do
        let rest ← readWord [0x61, 0x6C, 0x73, 0x65] rest
        return (.bool false, rest)
      else .error .missingValue

/-- The items that are still to come in a list. -/
def itemsFrom : (fuel depth : Nat) → (first : Bool) → Bytes → Except Fault (List Json × Bytes)
  | 0, _, _, _ => .error .endInList
  | fuel + 1, depth, first, bs => do
    match ← nextItem first bs with
    | .closed rest => return ([], rest)
    | .another bs =>
      let (item, rest) ← valueFrom fuel depth bs
      let (items, rest) ← itemsFrom fuel depth false rest
      return (item :: items, rest)

/-- The members that are still to come in an object, as they are written; `seen` holds the ones
before them, the last first. -/
def membersFrom : (fuel depth : Nat) → (first : Bool) → (seen : List (String × Json)) → Bytes →
    Except Fault (List (String × Json) × Bytes)
  | 0, _, _, _, _ => .error .endInObject
  | fuel + 1, depth, first, seen, bs => do
    match ← nextName first bs with
    | .closed rest => return (seen.reverse, rest)
    | .another bs =>
      let (name, rest) ← readName bs
      let (value, rest) ← valueFrom fuel depth rest
      membersFrom fuel depth false ((name, value) :: seen) rest

end

/-- The value at the front of a text, with room for `depth` containers, and the bytes after it. -/
def readValue (depth : Nat) (bs : Bytes) : Except Fault (Json × Bytes) :=
  valueFrom (2 * bs.length + 2) depth bs

/-- Nothing but blanks may follow a value. -/
def finish (rest : Bytes) : Except Fault Unit :=
  if (skipSpace rest).isEmpty then .ok () else .error .trailing

/-- The value of a whole text. -/
def parse (text : Bytes) : Except Fault Json := do
  let (value, rest) ← readValue depthLimit text
  finish rest
  return value

end VaultLink.Json
