import VaultLink.Json.Scan
import VaultLink.Json.Shape

/-!
# Reading records from text

A text is read straight into a record: the fault that stands first in the text is the one reported,
members with unknown names are passed over without being built, and only at the end are missing
fields looked for. A record may be written as an object or as the list of its fields.

* `Reader`: reads one part of a text; `Reader.string`, `Reader.optional`, `Reader.value`,
  `Reader.list`, `Reader.record` put readers together;
* `Reader.whole`: a reader that must use up the text.
-/

namespace VaultLink.Json

/-- Reads a part at the front of a text, with room for `depth` containers; the bytes after it. -/
abbrev Reader (α : Type) := (depth : Nat) → Bytes → Except Misfit (α × Bytes)

namespace Reader

variable {α σ : Type}

/-- A fault of the text as a misfit. -/
def lift {β : Type} : Except Fault β → Except Misfit β
  | .ok b => .ok b
  | .error fault => .error (.notJson fault)

/-- The kind of the value at the front of a text that starts with the byte `b`. Only as much is read
as the kind tells. -/
def kindAt (b : UInt8) (rest : Bytes) : Except Fault Kind :=
  if b = 0x22 then do
    let (text, _) ← readString rest
    return .string text
  else if b = 0x7B then .ok .map
  else if b = 0x5B then .ok .sequence
  else if b = 0x2D || isDigit b then do
    let (n, _) ← readNumber (b :: rest)
    return n.kind
  else if b = 0x6E then do
    let _ ← readWord [0x75, 0x6C, 0x6C] rest
    return .null
  else if b = 0x74 then do
    let _ ← readWord [0x72, 0x75, 0x65] rest
    return .bool true
  else if b = 0x66 then do
    let _ ← readWord [0x61, 0x6C, 0x73, 0x65] rest
    return .bool false
  else .error .missingValue

/-- Refuses the value at the front of a text. -/
def refuse {β : Type} (wanted : Wanted) (b : UInt8) (rest : Bytes) : Except Misfit β := do
  let found ← lift (kindAt b rest)
  .error (.wrongKind found wanted)

/-- A string. -/
def string : Reader String := fun _ bs =>
  match skipSpace bs with
  | [] => .error (.notJson .endInValue)
  | b :: rest => if b = 0x22 then lift (readString rest) else refuse .string b rest

/-- Any value. -/
def value : Reader Json := fun depth bs => lift (readValue depth bs)

/-- A part, or `null` for none. -/
def optional (inner : Reader α) : Reader (Option α) := fun depth bs =>
  match skipSpace bs with
  | 0x6E :: rest => do
    let rest ← lift (readWord [0x75, 0x6C, 0x6C] rest)
    return (none, rest)
  | bs => do
    let (a, rest) ← inner depth bs
    return (some a, rest)

/-- The items that are still to come in a list. Each item takes one from `fuel`; the number of bytes
is enough. -/
def itemsFrom (inner : Reader α) (depth : Nat) :
    (fuel : Nat) → (first : Bool) → Bytes → Except Misfit (List α × Bytes)
  | 0, _, _ => .error (.notJson .endInList)
  | fuel + 1, first, bs => do
    match ← lift (nextItem first bs) with
    | .closed rest => return ([], rest)
    | .another bs =>
      let (a, rest) ← inner depth bs
      let (more, rest) ← itemsFrom inner depth fuel false rest
      return (a :: more, rest)

/-- A list. -/
def list (inner : Reader α) : Reader (List α) := fun depth bs =>
  match skipSpace bs with
  | [] => .error (.notJson .endInValue)
  | b :: rest =>
    if b = 0x5B then
      match depth with
      | 0 => .error (.notJson .tooDeep)
      | depth + 1 => itemsFrom inner depth (rest.length + 1) true rest
    else refuse .sequence b rest

/-- The bytes after the end of a list whose items are all read. -/
def endList (bs : Bytes) : Except Fault Bytes :=
  match skipSpace bs with
  | [] => .error .endInList
  | b :: rest =>
    if b = 0x5D then .ok rest
    else if b = 0x2C then
      match skipSpace rest with
      | 0x5D :: _ => .error .trailingComma
      | _ => .error .trailing
    else .error .trailing

/-- The fields that are still to come in a record written as a list, `index` of which are read. The
list is closed once the bytes are `none`. -/
def fieldsFrom (record : Record (σ → Reader σ) σ) (depth : Nat) :
    (fields : List (Field (σ → Reader σ))) → (index : Nat) → σ → Bytes →
    Except Misfit (σ × Bytes)
  | [], _, state, bs => do
    let rest ← lift (endList bs)
    return (state, rest)
  | field :: fields, index, state, bs => do
    match ← lift (nextItem (index = 0) bs) with
    | .another bs =>
      let (state, rest) ← field.read state depth bs
      fieldsFrom record depth fields (index + 1) state rest
    | .closed rest =>
      match (field :: fields).findIdx? fun field => field.presence ≠ .defaulted with
      | some i => .error (.tooFew (index + i) record.name record.fields.length)
      | none => return (state, rest)

/-- The members that are still to come in a record written as an object; `seen` holds the names of
the fields before them. Each member takes one from `fuel`; the number of bytes is enough. -/
def membersFrom (record : Record (σ → Reader σ) σ) (depth : Nat) :
    (fuel : Nat) → (first : Bool) → (seen : List String) → σ → Bytes → Except Misfit (σ × Bytes)
  | 0, _, _, _, _ => .error (.notJson .endInObject)
  | fuel + 1, first, seen, state, bs => do
    match ← lift (nextName first bs) with
    | .closed rest =>
      match record.missing? seen with
      | some name => .error (.missing name)
      | none => return (state, rest)
    | .another bs =>
      let (name, rest) ← lift (readString bs)
      match record.find? name with
      | some field =>
        if seen.contains name then .error (.twice name)
        else
          let rest ← lift (readColon rest)
          let (state, rest) ← field.read state depth rest
          membersFrom record depth fuel false (name :: seen) state rest
      | none =>
        let rest ← lift (readColon rest)
        let rest ← lift (Scan.skip rest)
        membersFrom record depth fuel false seen state rest

/-- A record, as an object or as the list of its fields. -/
def record (record : Record (σ → Reader σ) σ) : Reader σ := fun depth bs =>
  match skipSpace bs with
  | [] => .error (.notJson .endInValue)
  | b :: rest =>
    if b = 0x7B then
      match depth with
      | 0 => .error (.notJson .tooDeep)
      | depth + 1 => membersFrom record depth (rest.length + 1) true [] record.blank rest
    else if b = 0x5B then
      match depth with
      | 0 => .error (.notJson .tooDeep)
      | depth + 1 => fieldsFrom record depth record.fields 0 record.blank rest
    else refuse (.record record.name) b rest

/-- What a whole text holds. -/
def whole (reader : Reader α) (text : Bytes) : Except Misfit α := do
  let (a, rest) ← reader depthLimit text
  lift (finish rest)
  return a

end Reader

end VaultLink.Json
