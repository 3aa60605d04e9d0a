import VaultLink.Json.Shape

/-!
# Reading records from values

A value that is already there is read into a record: the members of an object in the order of their
names, the items of a list in the order of the fields.

* `Conform`: reads one value; `Conform.string`, `Conform.optional`, `Conform.list`;
* `Conform.ofMembers`, `Conform.ofItems`, `Conform.record`: a record.
-/

namespace VaultLink.Json

/-- Reads a value. -/
abbrev Conform (α : Type) := Json → Except Misfit α

namespace Conform

variable {α σ : Type}

/-- A string. -/
def string : Conform String
  | .string s => .ok s
  | value => .error (.wrongKind value.kind .string)

/-- A value, or `null` for none. -/
def optional (inner : Conform α) : Conform (Option α)
  | .null => .ok none
  | value => some <$> inner value

/-- A flag that may be spelt loosely or left empty. -/
def flag : Conform Bool := fun value => .ok value.truthy

/-- A list. -/
def list (inner : Conform α) : Conform (List α)
  | .array items => items.mapM inner
  | value => .error (.wrongKind value.kind .sequence)

/-- Reads members into a record; members with unknown names do not count. -/
def fill (record : Record (σ → Conform σ) σ) : (state : σ) → Members → Except Misfit σ
  | state, [] => .ok state
  | state, (name, value) :: members => do
    match record.find? name with
    | some field =>
      let state ← field.read state value
      fill record state members
    | none => fill record state members

/-- A record from the members of an object. -/
def ofMembers (record : Record (σ → Conform σ) σ) (members : Members) : Except Misfit σ := do
  let state ← fill record record.blank members
  match record.missing? (members.map (·.1)) with
  | some name => .error (.missing name)
  | none => return state

/-- Reads items into the fields still to come, `index` of which are read; the items left over. -/
def fillInOrder (record : Record (σ → Conform σ) σ) :
    (fields : List (Field (σ → Conform σ))) → (index : Nat) → (state : σ) → List Json →
    Except Misfit (σ × List Json)
  | [], _, state, items => .ok (state, items)
  | field :: fields, index, state, [] =>
    match (field :: fields).findIdx? fun field => field.presence ≠ .defaulted with
    | some i => .error (.tooFew (index + i) record.name record.fields.length)
    | none => .ok (state, [])
  | field :: fields, index, state, item :: items => do
    let state ← field.read state item
    fillInOrder record fields (index + 1) state items

/-- A record from the items of a list. -/
def ofItems (record : Record (σ → Conform σ) σ) (items : List Json) : Except Misfit σ := do
  match ← fillInOrder record record.fields 0 record.blank items with
  | (state, []) => return state
  | (_, _ :: _) => .error (.tooMany items.length)

/-- A record, from an object or from the list of its fields. -/
def record (record : Record (σ → Conform σ) σ) : Conform σ
  | .object members => ofMembers record members
  | .array items => ofItems record items
  | value => .error (.wrongKind value.kind (.record record.name))

end Conform

end VaultLink.Json
