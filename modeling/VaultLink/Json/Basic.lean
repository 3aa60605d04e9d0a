import VaultLink.Bytes
import VaultLink.Table

/-!
# JSON values

A JSON value keeps integers of up to 64 bits exact and other numbers as doubles; the members of an
object are listed in the order of their names, each name once.

* `Json`: the values; `Json.Members`: the members of an object, a table of values;
* `Json.WellFormed`: every object inside a value lists its members in order;
* `Json.truthy`: the loose reading of a flag.
-/

namespace VaultLink

/-- An integer that fits 64 bits, with or without a sign: from `-2 ^ 63` to below `2 ^ 64`. -/
structure WideInt where
  /-- The integer. -/
  val : Int
  lower : -9223372036854775808 ≤ val
  upper : val < 18446744073709551616
  deriving DecidableEq

namespace WideInt

/-- The integer, if it fits. -/
def ofInt? (i : Int) : Option WideInt :=
  if h : -9223372036854775808 ≤ i ∧ i < 18446744073709551616 then some ⟨i, h.1, h.2⟩ else none

/-- The integer, if it fits 64 bits with a sign. -/
def toSigned? (w : WideInt) : Option Int :=
  if w.val < 9223372036854775808 then some w.val else none

end WideInt

namespace Json

/-- A number: an integer of up to 64 bits, or a double. -/
inductive Number where
  | int (value : WideInt)
  | float (value : Float)

end Json

/-- A JSON value. -/
inductive Json where
  | null
  | bool (value : Bool)
  | number (value : Json.Number)
  | string (value : String)
  | array (items : List Json)
  | object (members : List (String × Json))

namespace Json

/-- The members of an object, in the order of their names. -/
abbrev Members := Table Json

namespace Members

/-- Whether there is a member with a name. -/
def has (name : String) (members : Members) : Bool := (members.get? name).isSome

/-- The members of a list, a later one in place of an earlier one of the same name. -/
abbrev ofList (members : List (String × Json)) : Members := Table.ofList members

/-- Members whose names rise stay as they stand. -/
theorem ofList_of_ordered {members : Members} (h : members.Ordered) : ofList members = members :=
  Table.ofList_of_ordered h

end Members

/-- The text of a string value. -/
def asString? : Json → Option String
  | .string s => some s
  | _ => none

/-- The items of an array. -/
def asArray? : Json → Option (List Json)
  | .array items => some items
  | _ => none

/-- The members of an object. -/
def asObject? : Json → Option Members
  | .object members => some members
  | _ => none

/-- The member of an object with a name. -/
def get? (name : String) (value : Json) : Option Json := value.asObject? >>= Table.get? name

/-- Whether two texts agree but for the case of ASCII letters. -/
def sameLetters (s t : String) : Bool := s.toList.map Char.toLower = t.toList.map Char.toLower

/-- Whether a value is a raised flag: `true`, or that word as a string in any case. -/
def truthy : Json → Bool
  | .bool b => b
  | .string s => sameLetters s "true"
  | _ => false

/-- Every object inside the value lists its members in strictly rising order of their names. -/
inductive WellFormed : Json → Prop where
  | null : WellFormed .null
  | bool (b : Bool) : WellFormed (.bool b)
  | number (n : Number) : WellFormed (.number n)
  | string (s : String) : WellFormed (.string s)
  | array (items : List Json) (h : ∀ item ∈ items, WellFormed item) : WellFormed (.array items)
  | object (members : Members) (ordered : members.Ordered)
      (h : ∀ member ∈ members, WellFormed member.2) : WellFormed (.object members)

end Json

end VaultLink
