import VaultLink.Json.Parser
import VaultLink.Text.Quoted

/-!
# Shapes of values

A reader that wants a value of a certain shape says what it found instead. This module holds the
kinds of values as a person is told of them, the causes of a misfit, and how the fields of a record
are described.
-/

namespace VaultLink.Json

/-- A value as a person is told of it. -/
inductive Kind where
  | null
  | bool (value : Bool)
  | integer (value : Int)
  /-- A double by its written form. -/
  | decimal (written : String)
  | string (value : String)
  | sequence
  | map
  deriving DecidableEq, Repr

/-- The kind in words. -/
def Kind.describe : Kind → String
  | .null => "null"
  | .bool true => "boolean `true`"
  | .bool false => "boolean `false`"
  | .integer i => "integer `" ++ String.ofList (Decimal.digitsOfInt i) ++ "`"
  | .decimal written => "floating point `" ++ written ++ "`"
  | .string s => "string " ++ Quoted.quote s
  | .sequence => "sequence"
  | .map => "map"

/-- The kind of a number. -/
def Number.kind : Number → Kind
  | .int i => .integer i.val
  | .float x => .decimal (String.ofList (Number.floatChars x))

/-- The kind of a value. -/
def kind : Json → Kind
  | .null => .null
  | .bool b => .bool b
  | .number n => n.kind
  | .string s => .string s
  | .array _ => .sequence
  | .object _ => .map

/-- What a reader wants. -/
inductive Wanted where
  | string
  | sequence
  | record (name : String)
  deriving DecidableEq, Repr

/-- What is wanted in words. -/
def Wanted.describe : Wanted → String
  | .string => "a string"
  | .sequence => "a sequence"
  | .record name => "struct " ++ name

/-- Why a text or a value does not have the shape that is wanted. -/
inductive Misfit where
  /-- The text is not JSON. -/
  | notJson (fault : Fault)
  /-- A value of another kind. -/
  | wrongKind (found : Kind) (wanted : Wanted)
  /-- A field that must be there and is not. -/
  | missing (field : String)
  /-- A field that is there twice. -/
  | twice (field : String)
  /-- A record written as a list that ends too early. -/
  | tooFew (found : Nat) (record : String) (size : Nat)
  /-- A record written as a list that goes on too long. -/
  | tooMany (found : Nat)
  deriving DecidableEq, Repr

/-- The misfit in words. -/
def Misfit.message : Misfit → String
  | .notJson fault => fault.message
  | .wrongKind found wanted =>
    "invalid type: " ++ found.describe ++ ", expected " ++ wanted.describe
  | .missing field => s!"missing field `{field}`"
  | .twice field => s!"duplicate field `{field}`"
  | .tooFew found record size =>
    s!"invalid length {found}, expected struct {record} with {size} element"
      ++ if size = 1 then "" else "s"
  | .tooMany found => s!"invalid length {found}, expected fewer elements in array"

/-- Whether a record can do without a field. -/
inductive Presence where
  /-- The field must be there. -/
  | required
  /-- An object may leave the field out; a list may not end before it. -/
  | optional
  /-- The field has a value of its own when it is left out. -/
  | defaulted
  deriving DecidableEq, Repr

/-- A field of a record that is filled in step by step: its name, whether it can be left out, and
how it is read into the record. -/
structure Field (ρ : Type) where
  name : String
  presence : Presence
  read : ρ

/-- A record: its name, its fields in order, and the record with nothing filled in. -/
structure Record (ρ σ : Type) where
  name : String
  blank : σ
  fields : List (Field ρ)

/-- The field with a name. -/
def Record.find? {ρ σ : Type} (record : Record ρ σ) (name : String) : Option (Field ρ) :=
  record.fields.find? fun field => field.name = name

/-- The first field that must be there and is not among the names seen. -/
def Record.missing? {ρ σ : Type} (record : Record ρ σ) (seen : List String) : Option String :=
  (record.fields.find? fun field => field.presence = .required && !seen.contains field.name).map
    (·.name)

end VaultLink.Json
