import VaultLink.Proofs.Json.Rendering
import VaultLink.Proofs.Proxy.Classes

/-!
# The two spellings of an error code

The proxy writes the number of an error code as a number or as a string that holds one. What a numeral is
parsed to follows from its parts (`Json.parse_numeral`): an integer just if it has neither a fraction nor an
exponent and is not minus zero (`Json.Numeral.integer?_eq_some_iff`). So a code is read from exactly the
numbers and strings that are an integer of 64 bits with a sign, it is the code with this integer, and every
other value is refused (`ErrorCode.ofJson_keeps_number`).
-/

namespace VaultLink

/-! ## Numerals -/

theorem WideInt.ofInt?_eq_some_iff {n : Int} {i : WideInt} : ofInt? n = some i ↔ i.val = n := by
  unfold ofInt?
  split
  · constructor
    · intro h
      cases h
      rfl
    · rintro rfl
      rfl
  · rename_i h
    constructor
    · intro absent
      cases absent
    · rintro rfl
      exact absurd ⟨i.lower, i.upper⟩ h

namespace Json

open Grammar

/-- The integer of the sign and the digits before the point. -/
def Numeral.signed (n : Numeral) : Int :=
  if n.negative then -(ofDigits n.whole : Int) else ofDigits n.whole

/-- A numeral is an integer if nothing follows its digits and it is not minus zero. -/
theorem Numeral.integer?_eq_some_iff {n : Numeral} {i : WideInt} :
    n.integer? = some i ↔ n.fraction = none ∧ n.exponent = none ∧
      ¬ (n.negative = true ∧ ofDigits n.whole = 0) ∧ i.val = n.signed := by
  obtain ⟨negative, whole, fraction, exponent⟩ := n
  rw [← WideInt.ofInt?_eq_some_iff]
  cases negative <;> simp [integer?, signed, and_assoc]

/-- A text that holds nothing but a numeral with these parts. -/
def IsNumeral (text : Bytes) (n : Numeral) : Prop :=
  ∃ before bs after, text = before ++ (bs ++ after) ∧ Blanks before ∧ Counts bs n ∧ Blanks after

/-- A numeral is parsed to the integer that it is, and otherwise to a double. -/
theorem parse_numeral {text : Bytes} {n : Numeral} (h : IsNumeral text n) :
    parse text = match n.integer? with
      | some i => .ok (.number (.int i))
      | none => (fun x => .number (.float x)) <$> n.toDouble := by
  obtain ⟨before, bs, after, rfl, hb, hc, ha⟩ := h
  have hends : Ends after := by
    have := Ends.blanks ha ends_nil
    rwa [List.append_nil] at this
  have hread : readValue depthLimit (before ++ (bs ++ after)) =
      n.value >>= fun number => pure (.number number, after) := by
    rw [readValue, valueFrom_blanks hb, valueFrom_number hc, readNumber, readNumeral_of_counts hc hends]
    simp only [bind, Except.bind]
    cases n.value <;> rfl
  rw [parse, hread, Numeral.value_eq]
  cases n.integer? with
  | some i => simp only [bind, Except.bind, pure, Except.pure, finish_of_blanks ha]
  | none =>
    cases n.toDouble with
    | error fault => rfl
    | ok x => simp only [Functor.map, Except.map, bind, Except.bind, pure, Except.pure, finish_of_blanks ha]

/-- An integer is written as the numeral that has its value. -/
theorem parse_digitsOfInt (i : WideInt) :
    parse (ascii (Decimal.digitsOfInt i.val)) = .ok (.number (.int i)) := by
  have hnumeral : IsNumeral (ascii (Decimal.digitsOfInt i.val)) (numeralOf i.val) :=
    ⟨[], _, [], (List.append_nil _).symm, List.forall_mem_nil _, counts_digitsOfInt i.val,
      List.forall_mem_nil _⟩
  rw [parse_numeral hnumeral, integer?_numeralOf]

end Json

/-! ## Strings -/

namespace Integer

/-- The integers that fit 64 bits with a sign. -/
def IsSigned64 (i : Int) : Prop := -9223372036854775808 ≤ i ∧ i < 9223372036854775808

instance (i : Int) : Decidable (IsSigned64 i) := inferInstanceAs (Decidable (_ ∧ _))

/-- A text that holds nothing but an integer. -/
def IsSpelled (text : String) (i : Int) : Prop :=
  ∃ before cs after, text.toList = before ++ (cs ++ after) ∧
    (∀ c ∈ before, Blank.isBlank c = true) ∧ (∀ c ∈ after, Blank.isBlank c = true) ∧ Written cs i

theorem isSpelled_digitsOfInt (i : Int) : IsSpelled (String.ofList (Decimal.digitsOfInt i)) i :=
  ⟨[], _, [], by simp, List.forall_mem_nil _, List.forall_mem_nil _, written_digitsOfInt i⟩

end Integer

/-! ## Codes -/

namespace ErrorCode

open Integer (IsSigned64 IsSpelled)
open Json.Grammar (Counts)

/-- A number is the number of a code if it is an integer that fits. -/
theorem ofJson_int_eq_ok_iff {i : WideInt} {e : ErrorCode} :
    ofJson (.number (.int i)) = .ok e ↔ IsSigned64 i.val ∧ e = ofCode i.val := by
  rw [ofJson_eq_ok_iff]
  constructor
  · intro h
    cases h with
    | number hlt => exact ⟨⟨i.lower, hlt⟩, rfl⟩
  · rintro ⟨⟨-, hlt⟩, rfl⟩
    exact .number hlt

/-- A string holds the number of a code if it holds nothing but an integer that fits. -/
theorem ofJson_string_eq_ok_iff {s : String} {e : ErrorCode} :
    ofJson (.string s) = .ok e ↔ ∃ i, IsSpelled s i ∧ IsSigned64 i ∧ e = ofCode i := by
  rw [ofJson_eq_ok_iff]
  constructor
  · intro h
    cases h with
    | text hs hb ha hw hl hu => exact ⟨_, ⟨_, _, _, hs, hb, ha, hw⟩, ⟨hl, hu⟩, rfl⟩
  · rintro ⟨i, ⟨before, cs, after, hs, hb, ha, hw⟩, ⟨hl, hu⟩, rfl⟩
    exact .text hs hb ha hw hl hu

/-- What is no code is refused as malformed, with the text of the value. -/
theorem ofJson_eq_malformed {value : Json} (h : ∀ e, ofJson value ≠ .ok e) :
    ofJson value = .error (.malformedMessage (.badErrorCode value.text)) := by
  unfold ofJson at h ⊢
  simp only at h ⊢
  split at h
  · exact absurd rfl (h _)
  · rfl

/-- The code of a numeral is the one with its integer, if it is an integer that fits. -/
theorem ofJson_numeral_eq_ok_iff {text : Bytes} {n : Json.Numeral} {value : Json} {e : ErrorCode}
    (h : Json.IsNumeral text n) (hp : Json.parse text = .ok value) :
    ofJson value = .ok e ↔ n.fraction = none ∧ n.exponent = none ∧
      ¬ (n.negative = true ∧ Json.Numeral.ofDigits n.whole = 0) ∧ IsSigned64 n.signed ∧
      e = ofCode n.signed := by
  rw [Json.parse_numeral h] at hp
  have hinteger (i : WideInt) := @Json.Numeral.integer?_eq_some_iff n i
  cases hi : n.integer? with
  | some i =>
    rw [hi] at hp
    cases hp
    obtain ⟨hf, he, hz, hv⟩ := (hinteger i).1 hi
    rw [ofJson_int_eq_ok_iff, hv]
    exact ⟨fun ⟨hs, he'⟩ => ⟨hf, he, hz, hs, he'⟩, fun ⟨_, _, _, hs, he'⟩ => ⟨hs, he'⟩⟩
  | none =>
    rw [hi] at hp
    obtain ⟨x, -, rfl⟩ : ∃ x, n.toDouble = .ok x ∧ Json.number (.float x) = value := by
      cases hx : n.toDouble with
      | error => rw [hx] at hp; cases hp
      | ok x => rw [hx] at hp; cases hp; exact ⟨x, rfl, rfl⟩
    refine ⟨nofun, fun ⟨hf, he, hz, hs, _⟩ => ?_⟩
    have hsome := (hinteger ⟨n.signed, hs.1, Int.lt_trans hs.2 (by decide)⟩).2 ⟨hf, he, hz, rfl⟩
    cases hi.symm.trans hsome

/-- The number of a code survives in both of its spellings. An integer of 64 bits with a sign is read as the
code with this number, be it written as a number or in a string. Of all strings the ones that hold nothing
but such an integer between blanks are read, and of all numerals the ones without a fraction and an exponent
that are such an integer, minus zero excepted; all other strings, numbers and values are malformed. -/
theorem ofJson_keeps_number :
    (∀ c : Int, (ofCode c).code = c) ∧
    (∀ c : Int, IsSigned64 c → ∃ i : WideInt, i.val = c ∧
      Json.parse (Json.ascii (Decimal.digitsOfInt c)) = .ok (.number (.int i)) ∧
      ofJson (.number (.int i)) = .ok (ofCode c) ∧
      ofJson (.string (String.ofList (Decimal.digitsOfInt c))) = .ok (ofCode c)) ∧
    (∀ (s : String) (e : ErrorCode), ofJson (.string s) = .ok e ↔
      ∃ c, IsSpelled s c ∧ IsSigned64 c ∧ e = ofCode c) ∧
    (∀ s : String, (∀ c, IsSpelled s c → ¬ IsSigned64 c) →
      ofJson (.string s) = .error (.malformedMessage (.badErrorCode (Json.string s).text))) ∧
    (∀ (text : Bytes) (n : Json.Numeral), Json.IsNumeral text n →
      (n.fraction = none → n.exponent = none →
        ¬ (n.negative = true ∧ Json.Numeral.ofDigits n.whole = 0) → IsSigned64 n.signed →
        ∃ value, Json.parse text = .ok value ∧ ofJson value = .ok (ofCode n.signed)) ∧
      ∀ value, Json.parse text = .ok value →
        n.fraction ≠ none ∨ n.exponent ≠ none ∨
          (n.negative = true ∧ Json.Numeral.ofDigits n.whole = 0) ∨ ¬ IsSigned64 n.signed →
        ofJson value = .error (.malformedMessage (.badErrorCode value.text))) ∧
    ∀ value : Json, (∀ n, value ≠ .number n) → (∀ s, value ≠ .string s) →
      ofJson value = .error (.malformedMessage (.badErrorCode value.text)) := by
  refine ⟨code_ofCode, fun c hc => ?_, fun _ _ => ofJson_string_eq_ok_iff, fun s hs => ?_,
    fun text n hn => ⟨fun hf he hz hs => ?_, fun value hp hn' => ?_⟩, fun value hn hs => ?_⟩
  · let i : WideInt := ⟨c, hc.1, Int.lt_trans hc.2 (by decide)⟩
    exact ⟨i, rfl, Json.parse_digitsOfInt i, ofJson_int_eq_ok_iff.2 ⟨hc, rfl⟩,
      ofJson_string_eq_ok_iff.2 ⟨c, Integer.isSpelled_digitsOfInt c, hc, rfl⟩⟩
  · refine ofJson_eq_malformed fun e he => ?_
    obtain ⟨c, hspelled, hsigned, -⟩ := ofJson_string_eq_ok_iff.1 he
    exact hs c hspelled hsigned
  · let i : WideInt := ⟨n.signed, hs.1, Int.lt_trans hs.2 (by decide)⟩
    have hi : n.integer? = some i := Json.Numeral.integer?_eq_some_iff.2 ⟨hf, he, hz, rfl⟩
    have hp : Json.parse text = .ok (.number (.int i)) := by rw [Json.parse_numeral hn, hi]
    exact ⟨_, hp, ofJson_int_eq_ok_iff.2 ⟨hs, rfl⟩⟩
  · refine ofJson_eq_malformed fun e he => ?_
    obtain ⟨hf, hx, hz, hs, -⟩ := (ofJson_numeral_eq_ok_iff hn hp).1 he
    rcases hn' with h | h | h | h
    · exact h hf
    · exact h hx
    · exact hz h
    · exact h hs
  · cases value with
    | null | bool | array | object => rfl
    | number n => exact absurd rfl (hn n)
    | string s => exact absurd rfl (hs s)

/-- The lowest integer is read behind a blank, and the one beyond the highest is not, neither as a number nor
in a string. Nor is minus zero; zeros in front do not matter in a string, and a list holds no code. -/
theorem ofJson_keeps_number_at_the_limits :
    let lowest : Int := -9223372036854775808
    let beyond : WideInt := ⟨9223372036854775808, by decide, by decide⟩
    (∃ value, Json.parse (0x20 :: Json.ascii (Decimal.digitsOfInt lowest)) = .ok value ∧
      ofJson value = .ok (.other lowest)) ∧
    (∃ value, Json.parse (Json.ascii (Decimal.digitsOfInt beyond.val)) = .ok value ∧
      ofJson value = .error (.malformedMessage (.badErrorCode value.text))) ∧
    (∃ value, Json.parse (Json.ascii ['-', '0']) = .ok value ∧
      ofJson value = .error (.malformedMessage (.badErrorCode value.text))) ∧
    (∃ i : WideInt, i.val = 8 ∧ ofJson (.number (.int i)) = .ok .associationFailed) ∧
    ofJson (.string "\t+0008") = .ok .associationFailed ∧
    ofJson (.string "9223372036854775808") = .error (.malformedMessage
      (.badErrorCode (Json.string "9223372036854775808").text)) ∧
    ofJson (.array []) = .error (.malformedMessage (.badErrorCode (Json.array []).text)) := by
  have height : IsSpelled "\t+0008" 8 :=
    ⟨['\t'], ['+', '0', '0', '0', '8'], [], rfl, by simp [Blank.isBlank], List.forall_mem_nil _,
      .plus (by simp [Char.isDigit])⟩
  intro lowest beyond
  obtain ⟨-, hcode, hstring, hstrange, hnumeral, hother⟩ := ofJson_keeps_number
  have hlowest : Json.IsNumeral (0x20 :: Json.ascii (Decimal.digitsOfInt lowest))
      (Json.numeralOf lowest) :=
    ⟨[0x20], _, [], by simp, by decide, Json.counts_digitsOfInt lowest, List.forall_mem_nil _⟩
  have hbeyond : Json.IsNumeral (Json.ascii (Decimal.digitsOfInt beyond.val))
      (Json.numeralOf beyond.val) :=
    ⟨[], _, [], by simp, List.forall_mem_nil _, Json.counts_digitsOfInt beyond.val,
      List.forall_mem_nil _⟩
  have hminus : Json.IsNumeral (Json.ascii ['-', '0']) ⟨true, [0], none, none⟩ :=
    ⟨[], _, [], rfl, List.forall_mem_nil _, @Counts.parts true _ _ _ _ _ .zero .absent .absent,
      List.forall_mem_nil _⟩
  refine ⟨?_, ?_, ?_, ?_, ?_, ?_, hother (.array []) (by simp) (by simp)⟩
  · have hsigned : (Json.numeralOf lowest).signed = lowest := by decide
    have hread := (hnumeral _ _ hlowest).1 rfl rfl (by decide) (by decide)
    rwa [hsigned] at hread
  · refine ⟨_, Json.parse_digitsOfInt beyond, ?_⟩
    exact (hnumeral _ _ hbeyond).2 _ (Json.parse_digitsOfInt beyond) (by decide)
  · have hok : (Json.parse (Json.ascii ['-', '0'])).isOk = true := by decide +kernel
    rcases hp : Json.parse (Json.ascii ['-', '0']) with fault | value
    · rw [hp] at hok
      cases hok
    · exact ⟨value, rfl, (hnumeral _ _ hminus).2 value hp (by decide)⟩
  · obtain ⟨i, hi, -, hread, -⟩ := hcode 8 (by decide)
    exact ⟨i, hi, hread⟩
  · exact (hstring _ _).2 ⟨8, height, by decide, rfl⟩
  · refine hstrange _ fun c hspelled hsigned => ?_
    have hread := Integer.signed64?_trim_eq_some_iff.2 ⟨hsigned.1, hsigned.2, hspelled⟩
    have hnone : Integer.signed64? (Blank.trim "9223372036854775808") = none := by decide
    cases hnone.symm.trans hread

end ErrorCode

end VaultLink
