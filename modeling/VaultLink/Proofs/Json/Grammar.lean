import VaultLink.Json.Lexis

/-!
# The grammar of JSON text

Which bytes are JSON text, said by rules and without a reader. Escapes may name halves of surrogate
pairs and numbers may be of any size: the rules are about form only. That the text is UTF-8 is not
their business either; they take every byte above ASCII inside a string.

* `Numeral`, `Body`: numbers, and strings between their quotes;
* `Derives`: values with all their parts;
* `IsObject`: the values that are objects.
-/

namespace VaultLink.Json.Grammar

/-- Blanks, perhaps none. -/
def Blanks (bs : Bytes) : Prop := ∀ b ∈ bs, isSpace b = true

instance (bs : Bytes) : Decidable (Blanks bs) := List.decidableBAll (isSpace · = true) bs

/-- Digits, perhaps none. -/
def Digits (bs : Bytes) : Prop := ∀ b ∈ bs, isDigit b = true

instance (bs : Bytes) : Decidable (Digits bs) := List.decidableBAll (isDigit · = true) bs

/-- The digits before the point: a zero, or digits that do not start with one. -/
inductive Whole : Bytes → Prop
  | zero : Whole [0x30]
  | digits {d : UInt8} {ds : Bytes} : isDigit d = true → d ≠ 0x30 → Digits ds → Whole (d :: ds)

/-- The point and the digits after it, or nothing. -/
inductive Fraction : Bytes → Prop
  | absent : Fraction []
  | present {d : UInt8} {ds : Bytes} : isDigit d = true → Digits ds → Fraction (0x2E :: d :: ds)

/-- The exponent's letter, its sign if there is one, and its digits, or nothing. -/
inductive Exponent : Bytes → Prop
  | absent : Exponent []
  | present {mark d : UInt8} {sign ds : Bytes} : mark = 0x65 ∨ mark = 0x45 →
    sign = [] ∨ sign = [0x2B] ∨ sign = [0x2D] → isDigit d = true → Digits ds →
    Exponent (mark :: (sign ++ d :: ds))

/-- A number. -/
inductive Numeral : Bytes → Prop
  | parts {minus whole fraction exponent : Bytes} : minus = [] ∨ minus = [0x2D] → Whole whole →
    Fraction fraction → Exponent exponent → Numeral (minus ++ (whole ++ (fraction ++ exponent)))

/-- What stands between the quotes of a string. -/
inductive Body : Bytes → Prop
  | nil : Body []
  | plain {b : UInt8} {bs : Bytes} : 0x20 ≤ b → b ≠ 0x22 → b ≠ 0x5C → Body bs → Body (b :: bs)
  | letter {e : UInt8} {bs : Bytes} : e ∈ [0x22, 0x5C, 0x2F, 0x62, 0x66, 0x6E, 0x72, 0x74] →
    Body bs → Body (0x5C :: e :: bs)
  | unit {a b c d : UInt8} {bs : Bytes} : (hexValue? a).isSome → (hexValue? b).isSome →
    (hexValue? c).isSome → (hexValue? d).isSome → Body bs →
    Body (0x5C :: 0x75 :: a :: b :: c :: d :: bs)

/-- The words. -/
def words : List Bytes :=
  [[0x6E, 0x75, 0x6C, 0x6C], [0x74, 0x72, 0x75, 0x65], [0x66, 0x61, 0x6C, 0x73, 0x65]]

/-- What the rules are about. -/
inductive Part where
  | value
  /-- A value between blanks. -/
  | item
  /-- Items with commas between them. -/
  | items
  /-- A name, a colon and a value, with blanks around them. -/
  | member
  /-- Members with commas between them. -/
  | members

/-- The bytes of a part. -/
inductive Derives : Part → Bytes → Prop
  | word {bs : Bytes} : bs ∈ words → Derives .value bs
  | number {bs : Bytes} : Numeral bs → Derives .value bs
  | string {body : Bytes} : Body body → Derives .value (0x22 :: (body ++ [0x22]))
  | emptyList {blanks : Bytes} : Blanks blanks → Derives .value (0x5B :: (blanks ++ [0x5D]))
  | list {items : Bytes} : Derives .items items → Derives .value (0x5B :: (items ++ [0x5D]))
  | emptyObject {blanks : Bytes} : Blanks blanks → Derives .value (0x7B :: (blanks ++ [0x7D]))
  | object {members : Bytes} : Derives .members members →
    Derives .value (0x7B :: (members ++ [0x7D]))
  | item {before value after : Bytes} : Blanks before → Derives .value value → Blanks after →
    Derives .item (before ++ (value ++ after))
  | lastItem {item : Bytes} : Derives .item item → Derives .items item
  | moreItems {item items : Bytes} : Derives .item item → Derives .items items →
    Derives .items (item ++ 0x2C :: items)
  | member {before name after item : Bytes} : Blanks before → Body name → Blanks after →
    Derives .item item → Derives .member (before ++ 0x22 :: (name ++ 0x22 :: (after ++ 0x3A :: item)))
  | lastMember {member : Bytes} : Derives .member member → Derives .members member
  | moreMembers {member members : Bytes} : Derives .member member → Derives .members members →
    Derives .members (member ++ 0x2C :: members)

/-- The bytes of an object. -/
def IsObject (bs : Bytes) : Prop :=
  ∃ inner, bs = 0x7B :: (inner ++ [0x7D]) ∧ (Blanks inner ∨ Derives .members inner)

/-- An item is a value between blanks. -/
theorem Derives.exists_value {item : Bytes} (h : Derives .item item) :
    ∃ before value after, item = before ++ (value ++ after) ∧ Blanks before ∧
      Derives .value value ∧ Blanks after := by
  cases h with
  | item hb hv ha => exact ⟨_, _, _, rfl, hb, hv, ha⟩

theorem isSpace_of_isDigit {b : UInt8} (h : isDigit b = true) : isSpace b = false := by
  simp only [isDigit, isSpace] at h ⊢
  grind

/-- A value starts neither with a blank nor with the end of a list. -/
theorem Derives.exists_head {bs : Bytes} (h : Derives .value bs) :
    ∃ b rest, bs = b :: rest ∧ isSpace b = false ∧ b ≠ 0x5D := by
  cases h with
  | word h =>
    simp only [words, List.mem_cons, List.not_mem_nil, or_false] at h
    rcases h with rfl | rfl | rfl <;> exact ⟨_, _, rfl, rfl, by decide⟩
  | number h =>
    obtain ⟨hm, hw, -, -⟩ := h
    rcases hm with rfl | rfl
    · cases hw with
      | zero => exact ⟨_, _, rfl, rfl, by decide⟩
      | @digits d ds hd =>
        refine ⟨d, _, rfl, isSpace_of_isDigit hd, ?_⟩
        rintro rfl
        exact absurd hd (by decide)
    · exact ⟨_, _, rfl, rfl, by decide⟩
  | string | emptyList | list | emptyObject | object => exact ⟨_, _, rfl, rfl, by decide⟩

end VaultLink.Json.Grammar
