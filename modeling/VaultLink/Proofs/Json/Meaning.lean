import VaultLink.Json.Parser
import VaultLink.Proofs.Json.Following

/-!
# What JSON text means

Which value a JSON text stands for, said by rules and without a reader. The rules follow the grammar but
leave out what stands for no value: an escape for half a character without the other half, a number beyond
the largest double, and too many containers inside one another.

* `Spells`: strings, between their quotes;
* `Counts`, `Numeral.integer?`: numbers by their parts, and the ones that are integers of up to 64 bits;
* `Denotes`: values with all their parts;
* `Lists`, `Shows`: objects of which only the members with certain names have to stand for values.
-/

namespace VaultLink.Json

/-! ## Integers -/

/-- The integer of a numeral without a fraction and an exponent, if it fits 64 bits. Minus zero is none. -/
def Numeral.integer? (n : Numeral) : Option WideInt :=
  if n.fraction.isNone && n.exponent.isNone && !(n.negative && ofDigits n.whole = 0) then
    WideInt.ofInt? (if n.negative then -(ofDigits n.whole : Int) else ofDigits n.whole)
  else none

namespace Grammar

/-- What stands between the quotes of a string and spells these characters. An escape for half a character
stands next to the one for the other half. -/
inductive Spells : Bytes → List Char → Prop
  | nil : Spells [] []
  | plain {c : Char} {bs : Bytes} {cs : List Char} : 0x20 ≤ c.toNat → c ≠ '\"' → c ≠ '\\' →
    Spells bs cs → Spells (String.utf8EncodeChar c ++ bs) (c :: cs)
  | letter {e b : UInt8} {bs : Bytes} {cs : List Char} : simpleEscape? e = some b → Spells bs cs →
    Spells (0x5C :: e :: bs) (Char.ofNat b.toNat :: cs)
  | unit {h₁ h₂ h₃ h₄ : UInt8} {n : Nat} {bs : Bytes} {cs : List Char} :
    hexFour? h₁ h₂ h₃ h₄ = some n → isHighSurrogate n = false → isLowSurrogate n = false →
    Spells bs cs → Spells (0x5C :: 0x75 :: h₁ :: h₂ :: h₃ :: h₄ :: bs) (Char.ofNat n :: cs)
  | pair {h₁ h₂ h₃ h₄ l₁ l₂ l₃ l₄ : UInt8} {high low : Nat} {bs : Bytes} {cs : List Char} :
    hexFour? h₁ h₂ h₃ h₄ = some high → hexFour? l₁ l₂ l₃ l₄ = some low →
    isHighSurrogate high = true → isLowSurrogate low = true → Spells bs cs →
    Spells (0x5C :: 0x75 :: h₁ :: h₂ :: h₃ :: h₄ :: 0x5C :: 0x75 :: l₁ :: l₂ :: l₃ :: l₄ :: bs)
      (Char.ofNat (pairValue high low) :: cs)

/-- The point and these digits after it, or nothing. -/
inductive FractionOf : Bytes → Option (List Nat) → Prop
  | absent : FractionOf [] none
  | present {d : UInt8} {ds : Bytes} : isDigit d = true → Digits ds →
    FractionOf (0x2E :: d :: ds) (some ((d :: ds).map digitValue))

/-- The sign of an exponent; true for a minus sign. -/
inductive SignOf : Bytes → Bool → Prop
  | absent : SignOf [] false
  | plus : SignOf [0x2B] false
  | minus : SignOf [0x2D] true

/-- The exponent with this sign and these digits, or nothing. -/
inductive ExponentOf : Bytes → Option (Bool × List Nat) → Prop
  | absent : ExponentOf [] none
  | present {mark d : UInt8} {sign ds : Bytes} {down : Bool} : mark = 0x65 ∨ mark = 0x45 →
    SignOf sign down → isDigit d = true → Digits ds →
    ExponentOf (mark :: (sign ++ d :: ds)) (some (down, (d :: ds).map digitValue))

/-- A number with these parts. -/
inductive Counts : Bytes → Json.Numeral → Prop
  | parts {negative : Bool} {whole fraction exponent : Bytes} {f : Option (List Nat)}
    {e : Option (Bool × List Nat)} : Whole whole → FractionOf fraction f → ExponentOf exponent e →
    Counts ((if negative then [0x2D] else []) ++ (whole ++ (fraction ++ exponent)))
      ⟨negative, whole.map digitValue, f, e⟩

/-- A member with this name, and the item after its colon. -/
inductive Named (name : String) (item : Bytes) : Bytes → Prop
  | intro {before body after : Bytes} : Blanks before → Spells body name.toList → Blanks after →
    Named name item (before ++ 0x22 :: (body ++ 0x22 :: (after ++ 0x3A :: item)))

theorem Named.length_lt {name : String} {item member : Bytes} (h : Named name item member) :
    item.length < member.length := by
  cases h
  simp only [List.length_append, List.length_cons]
  omega

/-- What the parts of a text stand for. -/
inductive Sense where
  | value (v : Json)
  /-- A value between blanks. -/
  | item (v : Json)
  /-- Items with commas between them. -/
  | items (vs : List Json)
  /-- A name, a colon and a value, with blanks around them. -/
  | member (name : String) (v : Json)
  /-- Members with commas between them, as they are written. -/
  | members (ms : List (String × Json))

/-- The bytes stand for something, with room for `depth` containers inside one another. Of two members with
one name the later one counts. -/
inductive Denotes : (depth : Nat) → Sense → Bytes → Prop
  | null {depth : Nat} : Denotes depth (.value .null) [0x6E, 0x75, 0x6C, 0x6C]
  | true_ {depth : Nat} : Denotes depth (.value (.bool true)) [0x74, 0x72, 0x75, 0x65]
  | false_ {depth : Nat} : Denotes depth (.value (.bool false)) [0x66, 0x61, 0x6C, 0x73, 0x65]
  | integer {depth : Nat} {bs : Bytes} {n : Json.Numeral} {i : WideInt} : Counts bs n →
    n.integer? = some i → Denotes depth (.value (.number (.int i))) bs
  | double {depth : Nat} {bs : Bytes} {n : Json.Numeral} {x : Float} : Counts bs n →
    n.integer? = none → n.toDouble = .ok x → Denotes depth (.value (.number (.float x))) bs
  | string {depth : Nat} {body : Bytes} {text : String} : Spells body text.toList →
    Denotes depth (.value (.string text)) (0x22 :: (body ++ [0x22]))
  | emptyList {depth : Nat} {blanks : Bytes} : Blanks blanks →
    Denotes (depth + 1) (.value (.array [])) (0x5B :: (blanks ++ [0x5D]))
  | list {depth : Nat} {items : Bytes} {vs : List Json} : Denotes depth (.items vs) items →
    Denotes (depth + 1) (.value (.array vs)) (0x5B :: (items ++ [0x5D]))
  | emptyObject {depth : Nat} {blanks : Bytes} : Blanks blanks →
    Denotes (depth + 1) (.value (.object [])) (0x7B :: (blanks ++ [0x7D]))
  | object {depth : Nat} {members : Bytes} {ms : List (String × Json)} :
    Denotes depth (.members ms) members →
    Denotes (depth + 1) (.value (.object (Members.ofList ms))) (0x7B :: (members ++ [0x7D]))
  | item {depth : Nat} {before value after : Bytes} {v : Json} : Blanks before →
    Denotes depth (.value v) value → Blanks after →
    Denotes depth (.item v) (before ++ (value ++ after))
  | lastItem {depth : Nat} {item : Bytes} {v : Json} : Denotes depth (.item v) item →
    Denotes depth (.items [v]) item
  | moreItems {depth : Nat} {item items : Bytes} {v : Json} {vs : List Json} :
    Denotes depth (.item v) item → Denotes depth (.items vs) items →
    Denotes depth (.items (v :: vs)) (item ++ 0x2C :: items)
  | member {depth : Nat} {item member : Bytes} {name : String} {v : Json} : Named name item member →
    Denotes depth (.item v) item → Denotes depth (.member name v) member
  | lastMember {depth : Nat} {member : Bytes} {name : String} {v : Json} :
    Denotes depth (.member name v) member → Denotes depth (.members [(name, v)]) member
  | moreMembers {depth : Nat} {member members : Bytes} {name : String} {v : Json}
    {ms : List (String × Json)} : Denotes depth (.member name v) member →
    Denotes depth (.members ms) members →
    Denotes depth (.members ((name, v) :: ms)) (member ++ 0x2C :: members)

/-- An item is a value between blanks. -/
theorem Denotes.exists_value {depth : Nat} {item : Bytes} {v : Json} (h : Denotes depth (.item v) item) :
    ∃ before value after, item = before ++ (value ++ after) ∧ Blanks before ∧
      Denotes depth (.value v) value ∧ Blanks after := by
  cases h with
  | item hb hv ha => exact ⟨_, _, _, rfl, hb, hv, ha⟩

/-- A member of which the value counts just if the name is known. -/
inductive Entry (known : List String) (depth : Nat) : Option (String × Json) → Bytes → Prop
  | kept {name : String} {v : Json} {item member : Bytes} : name ∈ known → Named name item member →
    Denotes depth (.item v) item → Entry known depth (some (name, v)) member
  | passed {name : String} {item member : Bytes} : name ∉ known → Named name item member →
    Derives .item item → Entry known depth none member

theorem Entry.length_pos {known : List String} {depth : Nat} {entry : Option (String × Json)}
    {member : Bytes} (h : Entry known depth entry member) : 0 < member.length := by
  cases h with
  | kept _ hm _ => exact Nat.zero_lt_of_lt hm.length_lt
  | passed _ hm _ => exact Nat.zero_lt_of_lt hm.length_lt

/-- Members with commas between them, and those with known names among them, as they are written. -/
inductive Lists (known : List String) (depth : Nat) : List (String × Json) → Bytes → Prop
  | last {entry : Option (String × Json)} {member : Bytes} : Entry known depth entry member →
    Lists known depth entry.toList member
  | more {entry : Option (String × Json)} {ms : List (String × Json)} {member members : Bytes} :
    Entry known depth entry member → Lists known depth ms members →
    Lists known depth (entry.toList ++ ms) (member ++ 0x2C :: members)

/-- An object, and those of its members that have known names, as they are written. -/
inductive Shows (known : List String) : (depth : Nat) → List (String × Json) → Bytes → Prop
  | empty {depth : Nat} {blanks : Bytes} : Blanks blanks →
    Shows known (depth + 1) [] (0x7B :: (blanks ++ [0x7D]))
  | members {depth : Nat} {members : Bytes} {ms : List (String × Json)} :
    Lists known depth ms members → Shows known (depth + 1) ms (0x7B :: (members ++ [0x7D]))

end Grammar

end VaultLink.Json
