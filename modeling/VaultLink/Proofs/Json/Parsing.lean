import VaultLink.Proofs.Json.Meaning
import VaultLink.Proofs.Json.Writing

/-!
# The reader follows the meaning

Whatever a JSON text stands for by the rules is what the reader makes of it: a string
(`readString_of_spells`), a number (`readNumber_of_counts`), a value with all its parts
(`readValue_of_denotes`) and a whole text (`parse_of_denotes`).
-/

namespace VaultLink.Json

open Grammar

/-! ## Blanks and what comes after a value -/

theorem skipSpace_append {blanks : Bytes} (h : Blanks blanks) (bs : Bytes) :
    skipSpace (blanks ++ bs) = skipSpace bs := List.dropWhile_append_of_pos h

theorem skipSpace_cons {b : UInt8} (h : isSpace b = false) (bs : Bytes) :
    skipSpace (b :: bs) = b :: bs := List.dropWhile_cons_of_neg (Bool.not_eq_true _ ▸ h)

/-- Nothing, or bytes that start with one that ends a value. -/
def Ends (rest : Bytes) : Prop := ∀ b ∈ rest.head?, Scan.follows b = true

theorem ends_nil : Ends [] := fun _ h => by cases h

theorem ends_cons {b : UInt8} (h : Scan.follows b = true) (rest : Bytes) : Ends (b :: rest) :=
  fun _ hb => by cases hb; exact h

theorem Ends.blanks {after rest : Bytes} (ha : Blanks after) (hr : Ends rest) :
    Ends (after ++ rest) := by
  cases after with
  | nil => exact hr
  | cons b bs => exact ends_cons (by simp only [Scan.follows, ha b List.mem_cons_self, Bool.true_or]) _

/-- A byte that ends a value is no part of a number. -/
theorem not_numeric_of_follows {b : UInt8} (h : Scan.follows b = true) :
    isDigit b = false ∧ b ≠ 0x2E ∧ b ≠ 0x65 ∧ b ≠ 0x45 := by
  simp only [Scan.follows, isSpace, Bool.or_eq_true, decide_eq_true_eq] at h
  rcases h with (((((rfl | rfl) | rfl) | rfl) | rfl) | rfl) | rfl <;> decide

/-! ## Strings -/

theorem readStringFrom_plain {b : UInt8} (hq : b ≠ 0x22) (hs : ¬ b < 0x20) (he : b ≠ 0x5C)
    (acc rest : Bytes) : readStringFrom acc (b :: rest) = readStringFrom (b :: acc) rest := by
  rw [readStringFrom.eq_def]
  simp only [hq, hs, he, if_false]

theorem readStringFrom_letter {e c : UInt8} (hc : simpleEscape? e = some c) (acc rest : Bytes) :
    readStringFrom acc (0x5C :: e :: rest) = readStringFrom (c :: acc) rest := by
  have he : e ≠ 0x75 := by
    rintro rfl
    cases hc
  rw [readStringFrom.eq_def]
  simp [he, hc]

theorem readStringFrom_unit {h₁ h₂ h₃ h₄ : UInt8} {n : Nat} (hn : hexFour? h₁ h₂ h₃ h₄ = some n)
    (hh : isHighSurrogate n = false) (hl : isLowSurrogate n = false) (acc rest : Bytes) :
    readStringFrom acc (0x5C :: 0x75 :: h₁ :: h₂ :: h₃ :: h₄ :: rest) =
      readStringFrom (pushChar acc n) rest := by
  rw [readStringFrom.eq_def]
  simp [hn, hl, hh]

theorem readStringFrom_pair {h₁ h₂ h₃ h₄ l₁ l₂ l₃ l₄ : UInt8} {high low : Nat}
    (hn : hexFour? h₁ h₂ h₃ h₄ = some high) (hm : hexFour? l₁ l₂ l₃ l₄ = some low)
    (hh : isHighSurrogate high = true) (hl : isLowSurrogate low = true) (acc rest : Bytes) :
    readStringFrom acc (0x5C :: 0x75 :: h₁ :: h₂ :: h₃ :: h₄ :: 0x5C :: 0x75 :: l₁ :: l₂ :: l₃ :: l₄
      :: rest) = readStringFrom (pushChar acc (pairValue high low)) rest := by
  have hne : isLowSurrogate high = false := by
    simp only [isHighSurrogate, isLowSurrogate, Bool.and_eq_true, decide_eq_true_eq,
      Bool.and_eq_false_iff, decide_eq_false_iff_not] at hh ⊢
    omega
  rw [readStringFrom.eq_def]
  simp [hn, hm, hne, hh, hl]

theorem toNat_ne_of_ne {c d : Char} (h : c ≠ d) : c.toNat ≠ d.toNat :=
  fun hn => h (Char.ext (UInt32.toNat_inj.1 hn))

/-- The bytes of a character that needs no escape. -/
theorem unescaped_of_mem {c : Char} (h₀ : 0x20 ≤ c.toNat) (h₁ : c ≠ '\"') (h₂ : c ≠ '\\') {b : UInt8}
    (hb : b ∈ String.utf8EncodeChar c) : b ≠ 0x22 ∧ ¬ b < 0x20 ∧ b ≠ 0x5C := by
  have hquote : c.toNat ≠ 0x22 := toNat_ne_of_ne h₁
  have hslash : c.toNat ≠ 0x5C := toNat_ne_of_ne h₂
  have hn : b.toNat ≠ 0x22 ∧ 0x20 ≤ b.toNat ∧ b.toNat ≠ 0x5C := by
    rcases Nat.lt_or_ge c.toNat 128 with hlt | hge
    · rw [Utf8.utf8EncodeChar_of_lt hlt, List.mem_singleton] at hb
      rw [hb, UInt8.toNat_ofNat']
      omega
    · have := Utf8.le_of_mem_utf8EncodeChar hge b hb
      omega
  refine ⟨?_, UInt8.not_lt.2 (UInt8.le_iff_toNat_le.2 hn.2.1), ?_⟩ <;> rintro rfl
  · exact hn.1 rfl
  · exact hn.2.2 rfl

/-- The bytes of a character that needs no escape are taken as they come. -/
theorem readStringFrom_char {c : Char} (h₀ : 0x20 ≤ c.toNat) (h₁ : c ≠ '\"') (h₂ : c ≠ '\\')
    (acc rest : Bytes) :
    readStringFrom acc (String.utf8EncodeChar c ++ rest) =
      readStringFrom ((String.utf8EncodeChar c).reverse ++ acc) rest := by
  have hplain (bs : Bytes) (h : ∀ b ∈ bs, b ≠ 0x22 ∧ ¬ b < 0x20 ∧ b ≠ 0x5C) (acc : Bytes) :
      readStringFrom acc (bs ++ rest) = readStringFrom (bs.reverse ++ acc) rest := by
    induction bs generalizing acc with
    | nil => rfl
    | cons b bs ih =>
      obtain ⟨hq, hs, he⟩ := h b List.mem_cons_self
      rw [List.cons_append, readStringFrom_plain hq hs he,
        ih fun b hb => h b (List.mem_cons_of_mem _ hb)]
      simp
  exact hplain _ (fun b hb => unescaped_of_mem h₀ h₁ h₂ hb) acc

/-- The escapes of one letter stand for ASCII characters. -/
theorem utf8EncodeChar_of_simpleEscape? {e b : UInt8} (h : simpleEscape? e = some b) :
    String.utf8EncodeChar (Char.ofNat b.toNat) = [b] := by
  unfold simpleEscape? at h
  split at h
  · rename_i he
    simp only [Bool.or_eq_true, decide_eq_true_eq] at he
    cases h
    rcases he with (rfl | rfl) | rfl <;> rfl
  · repeat' split at h
    all_goals cases h <;> rfl

/-- What is spelled between quotes is read. -/
theorem readStringFrom_of_spells {body : Bytes} {cs : List Char} (h : Spells body cs)
    (acc rest : Bytes) :
    readStringFrom acc (body ++ 0x22 :: rest) =
      .ok (acc.reverse ++ cs.flatMap String.utf8EncodeChar, rest) := by
  induction h generalizing acc with
  | nil =>
    rw [List.nil_append, readStringFrom.eq_def]
    simp
  | plain h₀ h₁ h₂ _ ih =>
    rw [List.append_assoc, readStringFrom_char h₀ h₁ h₂, ih]
    simp
  | letter he _ ih =>
    simp only [List.cons_append]
    rw [readStringFrom_letter he, ih, List.flatMap_cons, utf8EncodeChar_of_simpleEscape? he]
    simp
  | unit hn hh hl _ ih =>
    simp only [List.cons_append]
    rw [readStringFrom_unit hn hh hl, ih]
    simp [pushChar]
  | pair hn hm hh hl _ ih =>
    simp only [List.cons_append]
    rw [readStringFrom_pair hn hm hh hl, ih]
    simp [pushChar]

theorem readString_of_spells {body : Bytes} {text : String} (h : Spells body text.toList)
    (rest : Bytes) : readString (body ++ 0x22 :: rest) = .ok (text, rest) := by
  simp only [readString, readStringFrom_of_spells h, bind, Except.bind, List.reverse_nil,
    List.nil_append, ← Utf8.encode_eq_flatMap, Utf8.decode?_encode, pure, Except.pure]

/-! ## Numbers -/

theorem spanDigits_append {ds rest : Bytes} (h : Digits ds)
    (hr : ∀ b ∈ rest.head?, isDigit b = false) :
    spanDigits (ds ++ rest) = (ds.map digitValue, rest) := by
  have hstop : rest.takeWhile isDigit = [] ∧ rest.dropWhile isDigit = rest := by
    cases rest with
    | nil => exact ⟨rfl, rfl⟩
    | cons b bs =>
      have hb := hr b rfl
      simp [hb]
  rw [spanDigits, List.takeWhile_append_of_pos h, List.dropWhile_append_of_pos h, hstop.1, hstop.2,
    List.append_nil]

theorem readDigits_append {d : UInt8} {ds rest : Bytes} (hd : isDigit d = true) (h : Digits ds)
    (hr : ∀ b ∈ rest.head?, isDigit b = false) :
    readDigits (d :: ds ++ rest) = .ok ((d :: ds).map digitValue, rest) := by
  rw [readDigits, spanDigits_append (List.forall_mem_cons.2 ⟨hd, h⟩) hr]
  rfl

theorem digitValue_ne_zero {d : UInt8} (hd : isDigit d = true) (h : d ≠ 0x30) : digitValue d ≠ 0 := by
  simp only [isDigit, Bool.and_eq_true, decide_eq_true_eq] at hd
  have hle := UInt8.le_iff_toNat_le.1 hd.1
  have hne : d.toNat ≠ 0x30 := fun hn => h (UInt8.toNat_inj.1 hn)
  have : (0x30 : UInt8).toNat = 0x30 := rfl
  unfold digitValue
  omega

theorem readWhole_append {whole rest : Bytes} (h : Whole whole)
    (hr : ∀ b ∈ rest.head?, isDigit b = false) :
    readWhole (whole ++ rest) = .ok (whole.map digitValue, rest) := by
  cases h with
  | zero =>
    rw [readWhole, readDigits_append (by decide) (List.forall_mem_nil _) hr]
    rfl
  | @digits d ds hd h0 hds =>
    have hne := digitValue_ne_zero hd h0
    rw [readWhole, readDigits_append hd hds hr]
    obtain ⟨n, hn⟩ := Nat.exists_eq_succ_of_ne_zero hne
    rw [List.map_cons, hn]
    rfl

theorem readFraction_append {fraction rest : Bytes} {f : Option (List Nat)}
    (h : FractionOf fraction f) (hr : ∀ b ∈ rest.head?, isDigit b = false ∧ b ≠ 0x2E) :
    readFraction (fraction ++ rest) = .ok (f, rest) := by
  cases h with
  | absent =>
    rw [List.nil_append]
    unfold readFraction
    split
    · exact absurd rfl (hr _ rfl).2
    · rfl
  | present hd hds =>
    simp only [List.cons_append, readFraction]
    rw [← List.cons_append, readDigits_append hd hds fun b hb => (hr b hb).1]
    rfl

theorem readExponent_append {exponent rest : Bytes} {e : Option (Bool × List Nat)}
    (h : ExponentOf exponent e)
    (hr : ∀ b ∈ rest.head?, isDigit b = false ∧ b ≠ 0x65 ∧ b ≠ 0x45) :
    readExponent (exponent ++ rest) = .ok (e, rest) := by
  cases h with
  | absent =>
    cases rest with
    | nil => rfl
    | cons b bs =>
      obtain ⟨-, h₁, h₂⟩ := hr b rfl
      simp [readExponent, h₁, h₂]
  | @present mark d sign ds down hm hs hd hds =>
    have hmark : (mark = 0x65 || mark = 0x45) = true := by simpa using hm
    have hdigits := readDigits_append hd hds fun b hb => (hr b hb).1
    have hsign : d ≠ 0x2B ∧ d ≠ 0x2D := by
      constructor <;> rintro rfl <;> exact absurd hd (by decide)
    simp only [List.cons_append, List.append_assoc, readExponent, hmark, if_true]
    rw [List.cons_append] at hdigits
    cases hs with
    | absent =>
      split
      · rename_i heq
        cases heq
        exact absurd rfl hsign.1
      · rename_i heq
        cases heq
        exact absurd rfl hsign.2
      · rw [List.nil_append, hdigits]
        rfl
    | plus | minus =>
      simp only [List.cons_append, List.nil_append]
      rw [hdigits]
      rfl

/-- What can stand after the digits before the point, and after those behind it. -/
theorem not_digit_of_head? {fraction exponent rest : Bytes} {f : Option (List Nat)}
    {e : Option (Bool × List Nat)} (hf : FractionOf fraction f) (he : ExponentOf exponent e)
    (hr : Ends rest) :
    (∀ b ∈ (fraction ++ (exponent ++ rest)).head?, isDigit b = false) ∧
      ∀ b ∈ (exponent ++ rest).head?, isDigit b = false ∧ b ≠ 0x2E := by
  have hexponent : ∀ b ∈ (exponent ++ rest).head?, isDigit b = false ∧ b ≠ 0x2E := by
    intro b hb
    cases he with
    | absent =>
      have := not_numeric_of_follows (hr b hb)
      exact ⟨this.1, this.2.1⟩
    | present hm =>
      cases hb
      rcases hm with rfl | rfl <;> decide
  refine ⟨fun b hb => ?_, hexponent⟩
  cases hf with
  | absent => exact (hexponent b hb).1
  | present =>
    cases hb
    rfl

theorem readNumeral_of_counts {bs rest : Bytes} {n : Numeral} (h : Counts bs n) (hr : Ends rest) :
    readNumeral (bs ++ rest) = .ok (n, rest) := by
  obtain @⟨negative, whole, fraction, exponent, f, e, hw, hf, he⟩ := h
  obtain ⟨hafter, hpoint⟩ := not_digit_of_head? hf he hr
  have hparts : readWhole (whole ++ (fraction ++ (exponent ++ rest))) =
      .ok (whole.map digitValue, fraction ++ (exponent ++ rest)) := readWhole_append hw hafter
  have hfraction := readFraction_append hf hpoint
  have hexponent := readExponent_append he fun b hb =>
    have h := not_numeric_of_follows (hr b hb)
    ⟨h.1, h.2.2⟩
  have hminus (as bs : Bytes) : whole ++ as ≠ 0x2D :: bs := by
    intro h
    cases hw with
    | zero => cases h
    | digits hd =>
      cases h
      exact absurd hd (by decide)
  cases negative with
  | true =>
    simp only [readNumeral, if_true, List.cons_append, List.nil_append, List.append_assoc, hparts,
      bind, Except.bind, hfraction, hexponent, pure, Except.pure]
  | false =>
    simp only [readNumeral, Bool.false_eq_true, if_false, List.nil_append, List.append_assoc]
    split
    · rename_i heq
      exact absurd heq (hminus _ _)
    · simp only [hparts, bind, Except.bind, hfraction, hexponent, pure, Except.pure]

namespace Numeral

/-- The number of digits that are appended to a number. -/
def appended (acc : Nat) (ds : List Nat) : Nat := ds.foldl (fun n d => 10 * n + d) acc

theorem le_appended (acc : Nat) (ds : List Nat) : acc ≤ appended acc ds := by
  induction ds generalizing acc with
  | nil => exact Nat.le_refl _
  | cons d ds ih => exact Nat.le_trans (by omega) (ih (10 * acc + d))

/-- Digits that find room are all kept. -/
theorem absorb_of_lt {acc : Nat} {ds : List Nat} (h : appended acc ds < 18446744073709551616) :
    absorb acc ds = (appended acc ds, ds.length) := by
  induction ds generalizing acc with
  | nil => rfl
  | cons d ds ih =>
    have hstep : appended acc (d :: ds) = appended (acc * 10 + d) ds := by
      rw [Nat.mul_comm]
      rfl
    have hle := le_appended (acc * 10 + d) ds
    rw [hstep] at h ⊢
    rw [absorb, if_pos (show _ < Nat.pow 2 64 from Nat.lt_of_le_of_lt hle h), ih h]
    rfl

/-- Otherwise some are left out. -/
theorem absorb_of_le {acc : Nat} {ds : List Nat} (ha : acc < 18446744073709551616)
    (h : 18446744073709551616 ≤ appended acc ds) : (absorb acc ds).2 < ds.length := by
  induction ds generalizing acc with
  | nil => exact absurd ha (Nat.not_lt.2 h)
  | cons d ds ih =>
    have hstep : appended acc (d :: ds) = appended (acc * 10 + d) ds := by
      rw [Nat.mul_comm]
      rfl
    rw [hstep] at h
    rw [absorb]
    by_cases hlt : acc * 10 + d < 18446744073709551616
    · rw [if_pos (show _ < Nat.pow 2 64 from hlt)]
      exact Nat.succ_lt_succ (ih hlt h)
    · rw [if_neg (show ¬ _ < Nat.pow 2 64 from hlt)]
      exact Nat.succ_pos _

/-- A number is the integer of its numeral if that is one, and otherwise a double. -/
theorem value_eq (n : Numeral) :
    n.value = match n.integer? with
      | some i => .ok (.int i)
      | none => .float <$> n.toDouble := by
  obtain ⟨negative, whole, fraction, exponent⟩ := n
  cases fraction with
  | some => simp [value, integer?]
  | none =>
    cases exponent with
    | some => simp [value, integer?]
    | none =>
      have hdigits : ofDigits whole = appended 0 whole := rfl
      by_cases hlt : appended 0 whole < 18446744073709551616
      · have hsig : significand ⟨negative, whole, none, none⟩ = (appended 0 whole, 0, true) := by
          simp [significand, absorb_of_lt hlt, absorb]
        simp only [value, integer?, hsig, hdigits, Option.isNone_none, Bool.and_true, Bool.true_and]
        split <;> rfl
      · have hge := Nat.le_of_not_lt hlt
        have hkept := absorb_of_le (by decide : 0 < 18446744073709551616) hge
        have hnone : integer? ⟨negative, whole, none, none⟩ = none := by
          simp only [integer?, hdigits]
          split
          · unfold WideInt.ofInt?
            rw [dif_neg (by cases negative <;> simp only [if_true, Bool.false_eq_true, if_false] <;> omega)]
          · rfl
        have hsig : (significand ⟨negative, whole, none, none⟩).2.2 = false := by
          simp only [significand]
          exact decide_eq_false (Nat.ne_of_lt hkept)
        rw [hnone]
        simp [value, hsig]

end Numeral

theorem readNumber_of_integer {bs rest : Bytes} {n : Numeral} {i : WideInt} (h : Counts bs n)
    (hi : n.integer? = some i) (hr : Ends rest) : readNumber (bs ++ rest) = .ok (.int i, rest) := by
  simp only [readNumber, readNumeral_of_counts h hr, bind, Except.bind, Numeral.value_eq, hi, pure,
    Except.pure]

theorem readNumber_of_double {bs rest : Bytes} {n : Numeral} {x : Float} (h : Counts bs n)
    (hi : n.integer? = none) (hx : n.toDouble = .ok x) (hr : Ends rest) :
    readNumber (bs ++ rest) = .ok (.float x, rest) := by
  simp only [readNumber, readNumeral_of_counts h hr, bind, Except.bind, Numeral.value_eq, hi, hx, pure,
    Except.pure]
  rfl

/-! ## The grammar -/

theorem body_of_spells {body : Bytes} {cs : List Char} (h : Spells body cs) : Body body := by
  induction h with
  | nil => exact .nil
  | @plain c bs cs h₀ h₁ h₂ _ ih =>
    have hplain (as : Bytes) (h : ∀ b ∈ as, b ≠ 0x22 ∧ ¬ b < 0x20 ∧ b ≠ 0x5C) : Body (as ++ bs) := by
      induction as with
      | nil => exact ih
      | cons b as iha =>
        obtain ⟨hq, hs, he⟩ := h b List.mem_cons_self
        exact .plain (UInt8.not_lt.1 hs) hq he (iha fun b hb => h b (List.mem_cons_of_mem _ hb))
    exact hplain _ fun b hb => unescaped_of_mem h₀ h₁ h₂ hb
  | letter he _ ih => exact .letter (Scan.mem_of_simpleEscape? he) ih
  | unit hn _ _ _ ih =>
    obtain ⟨ha, hb, hc, hd⟩ := Scan.isSome_of_hexFour? hn
    exact .unit ha hb hc hd ih
  | pair hn hm _ _ _ ih =>
    obtain ⟨ha, hb, hc, hd⟩ := Scan.isSome_of_hexFour? hn
    obtain ⟨ha', hb', hc', hd'⟩ := Scan.isSome_of_hexFour? hm
    exact .unit ha hb hc hd (.unit ha' hb' hc' hd' ih)

theorem numeral_of_counts {bs : Bytes} {n : Json.Numeral} (h : Counts bs n) : Grammar.Numeral bs := by
  obtain @⟨negative, whole, fraction, exponent, f, e, hw, hf, he⟩ := h
  have hfraction : Fraction fraction := by
    cases hf with
    | absent => exact .absent
    | present hd hds => exact .present hd hds
  have hexponent : Exponent exponent := by
    cases he with
    | absent => exact .absent
    | present hm hs hd hds =>
      refine .present hm ?_ hd hds
      cases hs with
      | absent => exact .inl rfl
      | plus => exact .inr (.inl rfl)
      | minus => exact .inr (.inr rfl)
  refine .parts ?_ hw hfraction hexponent
  cases negative
  · exact .inl rfl
  · exact .inr rfl

/-- What the parts of a text are. -/
def Grammar.Sense.part : Sense → Part
  | .value _ => .value
  | .item _ => .item
  | .items _ => .items
  | .member .. => .member
  | .members _ => .members

/-- What stands for something follows the grammar. -/
theorem derives_of_denotes {depth : Nat} {sense : Sense} {bs : Bytes} (h : Denotes depth sense bs) :
    Derives sense.part bs := by
  induction h with
  | null | true_ | false_ => exact .word (by decide)
  | integer hn => exact .number (numeral_of_counts hn)
  | double hn => exact .number (numeral_of_counts hn)
  | string h => exact .string (body_of_spells h)
  | emptyList h => exact .emptyList h
  | list _ ih => exact .list ih
  | emptyObject h => exact .emptyObject h
  | object _ ih => exact .object ih
  | item hb _ ha ih => exact .item hb ih ha
  | lastItem _ ih => exact .lastItem ih
  | moreItems _ _ ih ihs => exact .moreItems ih ihs
  | member hm _ ih =>
    obtain ⟨hb, hs, ha⟩ := hm
    exact .member hb (body_of_spells hs) ha ih
  | lastMember _ ih => exact .lastMember ih
  | moreMembers _ _ ih ihs => exact .moreMembers ih ihs

/-- A member counts just if its name is known. -/
theorem entry_of_denotes {depth : Nat} {name : String} {v : Json} {member : Bytes}
    (h : Denotes depth (.member name v) member) (known : List String) :
    Entry known depth (if name ∈ known then some (name, v) else none) member := by
  cases h with
  | member hm hv =>
    split
    · rename_i hk
      exact .kept hk hm hv
    · rename_i hk
      exact .passed hk hm (derives_of_denotes hv)

/-- Of members that all stand for values, those with known names count. -/
theorem lists_of_denotes {depth : Nat} {members : List (String × Json)} {bs : Bytes}
    (h : Denotes depth (.members members) bs) (known : List String) :
    Lists known depth (members.filter (·.1 ∈ known)) bs := by
  have hfilter (name : String) (v : Json) (members : List (String × Json)) :
      ((name, v) :: members).filter (·.1 ∈ known) =
        (if name ∈ known then some (name, v) else none).toList ++ members.filter (·.1 ∈ known) := by
    rw [List.filter_cons]
    split <;> simp_all
  generalize hsense : Sense.members members = sense at h
  induction h generalizing members with
  | lastMember hm =>
    cases hsense
    rw [hfilter, List.filter_nil, List.append_nil]
    exact .last (entry_of_denotes hm known)
  | moreMembers hm _ _ ih =>
    cases hsense
    rw [hfilter]
    exact .more (entry_of_denotes hm known) (ih rfl)
  | _ => cases hsense

/-! ## Between the parts -/

/-- The comma before a part that is not the first. -/
def comma (first : Bool) : Bytes := if first then [] else [0x2C]

theorem nextItem_blanks {blanks : Bytes} (h : Blanks blanks) (first : Bool) (bs : Bytes) :
    nextItem first (blanks ++ bs) = nextItem first bs := by
  rw [nextItem, skipSpace_append h, nextItem]

theorem nextName_blanks {blanks : Bytes} (h : Blanks blanks) (first : Bool) (bs : Bytes) :
    nextName first (blanks ++ bs) = nextName first bs := by
  rw [nextName, skipSpace_append h, nextName]

theorem nextItem_closed (first : Bool) (rest : Bytes) :
    nextItem first (0x5D :: rest) = .ok (.closed rest) := rfl

theorem nextName_closed (first : Bool) (rest : Bytes) :
    nextName first (0x7D :: rest) = .ok (.closed rest) := rfl

/-- An item comes next, without the blanks before it. -/
theorem nextItem_append {before : Bytes} (hb : Blanks before) {b : UInt8} (hs : isSpace b = false)
    (hne : b ≠ 0x5D) (first : Bool) (bs : Bytes) :
    nextItem first (comma first ++ (before ++ b :: bs)) = .ok (.another (b :: bs)) := by
  have hskip : skipSpace (before ++ b :: bs) = b :: bs := by
    rw [skipSpace_append hb, skipSpace_cons hs]
  cases first with
  | true =>
    rw [nextItem, show comma true = [] from rfl, List.nil_append, hskip]
    simp only [hne, if_false, if_true]
  | false =>
    rw [nextItem, show comma false = [0x2C] from rfl, List.singleton_append, skipSpace_cons rfl]
    simp [hskip, hne]

theorem readColon_append {blanks : Bytes} (h : Blanks blanks) (rest : Bytes) :
    readColon (blanks ++ 0x3A :: rest) = .ok rest := by
  rw [readColon, skipSpace_append h, skipSpace_cons rfl]
  rfl

/-- The name of a member comes next, and then its item. -/
theorem exists_nextName {name : String} {item member : Bytes} (h : Named name item member)
    (first : Bool) (rest : Bytes) :
    ∃ tail, nextName first (comma first ++ (member ++ rest)) = .ok (.another tail) ∧
      ∃ tail', readString tail = .ok (name, tail') ∧ readColon tail' = .ok (item ++ rest) := by
  obtain @⟨before, body, after, hb, hs, ha⟩ := h
  have hskip (bs : Bytes) : skipSpace (before ++ 0x22 :: bs) = 0x22 :: bs := by
    rw [skipSpace_append hb]
    exact skipSpace_cons rfl _
  have hnext (bs : Bytes) :
      nextName first (comma first ++ (before ++ 0x22 :: bs)) = .ok (.another bs) := by
    cases first with
    | true =>
      rw [nextName, show comma true = [] from rfl, List.nil_append, hskip]
      rfl
    | false =>
      rw [nextName, show comma false = [0x2C] from rfl, List.singleton_append, skipSpace_cons rfl]
      simp [hskip]
  simp only [List.append_assoc, List.cons_append]
  exact ⟨_, hnext _, _, readString_of_spells hs _, readColon_append ha _⟩

/-! ## Values -/

theorem valueFrom_blanks {blanks : Bytes} (h : Blanks blanks) (fuel depth : Nat) (bs : Bytes) :
    valueFrom fuel depth (blanks ++ bs) = valueFrom fuel depth bs := by
  cases fuel with
  | zero => simp only [valueFrom]
  | succ fuel => rw [valueFrom, skipSpace_append h, valueFrom]

theorem itemsFrom_blanks {blanks : Bytes} (h : Blanks blanks) (fuel depth : Nat) (first : Bool)
    (bs : Bytes) : itemsFrom fuel depth first (blanks ++ bs) = itemsFrom fuel depth first bs := by
  cases fuel with
  | zero => simp only [itemsFrom]
  | succ fuel => rw [itemsFrom, nextItem_blanks h, itemsFrom]

theorem membersFrom_blanks {blanks : Bytes} (h : Blanks blanks) (fuel depth : Nat) (first : Bool)
    (seen : List (String × Json)) (bs : Bytes) :
    membersFrom fuel depth first seen (blanks ++ bs) = membersFrom fuel depth first seen bs := by
  cases fuel with
  | zero => simp only [membersFrom]
  | succ fuel => rw [membersFrom, nextName_blanks h, membersFrom]

/-- What the readers make of a part of a text, with enough fuel. -/
def Parses (depth : Nat) : Sense → Bytes → Prop
  | .value v, bs => ∀ fuel rest, 2 * bs.length < fuel → Ends rest →
    valueFrom fuel depth (bs ++ rest) = .ok (v, rest)
  | .item v, bs => ∀ fuel rest, 2 * bs.length < fuel → Ends rest → ∃ after, Blanks after ∧
    valueFrom fuel depth (bs ++ rest) = .ok (v, after ++ rest)
  | .items vs, bs => ∀ fuel first rest, 2 * bs.length + 1 < fuel →
    itemsFrom fuel depth first (comma first ++ (bs ++ 0x5D :: rest)) = .ok (vs, rest)
  | .member name v, bs => ∀ fuel first seen rest, 2 * bs.length < fuel → Ends rest →
    membersFrom (fuel + 1) depth first seen (comma first ++ (bs ++ rest)) =
      membersFrom fuel depth false ((name, v) :: seen) rest
  | .members ms, bs => ∀ fuel first seen rest, 2 * bs.length + 1 < fuel →
    membersFrom fuel depth first seen (comma first ++ (bs ++ 0x7D :: rest)) =
      .ok (seen.reverse ++ ms, rest)

/-- How a number starts. -/
theorem exists_head_of_counts {bs : Bytes} {n : Numeral} (h : Counts bs n) :
    ∃ b tail, bs = b :: tail ∧ (b = 0x2D || isDigit b) = true ∧ isSpace b = false ∧
      b ∉ ([0x22, 0x7B, 0x5B, 0x6E] : Bytes) := by
  have hother {b : UInt8} (hb : (b = 0x2D || isDigit b) = true) :
      isSpace b = false ∧ b ∉ ([0x22, 0x7B, 0x5B, 0x6E] : Bytes) := by
    simp only [isDigit, isSpace] at hb ⊢
    grind
  obtain @⟨negative, whole, fraction, exponent, f, e, hw, -, -⟩ := h
  cases negative with
  | true => exact ⟨_, _, rfl, rfl, by decide⟩
  | false =>
    cases hw with
    | zero => exact ⟨_, _, rfl, rfl, by decide⟩
    | @digits d ds hd =>
      have hb : (d = 0x2D || isDigit d) = true := by rw [hd, Bool.or_true]
      exact ⟨_, _, rfl, hb, hother hb⟩

theorem valueFrom_number {bs : Bytes} {n : Numeral} (h : Counts bs n) (fuel depth : Nat)
    (rest : Bytes) :
    valueFrom (fuel + 1) depth (bs ++ rest) =
      readNumber (bs ++ rest) >>= fun read => pure (.number read.1, read.2) := by
  obtain ⟨b, tail, rfl, hb, hs, hother⟩ := exists_head_of_counts h
  simp only [List.mem_cons, List.not_mem_nil, or_false, not_or] at hother
  rw [List.cons_append, valueFrom, skipSpace_cons hs]
  simp only [hother, hb, if_false, if_true]

theorem valueFrom_list (fuel depth : Nat) (bs : Bytes) :
    valueFrom (fuel + 1) (depth + 1) (0x5B :: bs) =
      itemsFrom fuel depth true bs >>= fun read => pure (.array read.1, read.2) := by
  rw [valueFrom]
  rfl

theorem valueFrom_object (fuel depth : Nat) (bs : Bytes) :
    valueFrom (fuel + 1) (depth + 1) (0x7B :: bs) =
      membersFrom fuel depth true [] bs >>= fun read =>
        pure (.object (Members.ofList read.1), read.2) := by
  rw [valueFrom]
  rfl

theorem itemsFrom_closed (fuel depth : Nat) (first : Bool) (rest : Bytes) :
    itemsFrom (fuel + 1) depth first (0x5D :: rest) = .ok ([], rest) := by
  rw [itemsFrom, nextItem_closed]
  rfl

theorem membersFrom_closed (fuel depth : Nat) (first : Bool) (seen : List (String × Json))
    (rest : Bytes) :
    membersFrom (fuel + 1) depth first seen (0x7D :: rest) = .ok (seen.reverse, rest) := by
  rw [membersFrom, nextName_closed]
  rfl

/-- An item, and then the others. -/
theorem itemsFrom_item {item : Bytes} {v : Json} {depth : Nat} (hd : Derives .item item)
    (h : Parses depth (.item v) item) {fuel : Nat} (hf : 2 * item.length < fuel) (first : Bool)
    {rest : Bytes} (hr : Ends rest) :
    itemsFrom (fuel + 1) depth first (comma first ++ (item ++ rest)) =
      itemsFrom fuel depth false rest >>= fun read => pure (v :: read.1, read.2) := by
  obtain ⟨after, ha, hv⟩ := h fuel rest hf hr
  obtain ⟨before, value, after', rfl, hb, hvalue, -⟩ := hd.exists_value
  obtain ⟨b, bs, rfl, hs, hne⟩ := hvalue.exists_head
  simp only [List.append_assoc, List.cons_append] at hv ⊢
  rw [valueFrom_blanks hb] at hv
  rw [itemsFrom, nextItem_append hb hs hne]
  simp only [bind, Except.bind, hv, itemsFrom_blanks ha]

/-- The readers make of a part of a text what it stands for. -/
theorem parses_of_denotes {depth : Nat} {sense : Sense} {bs : Bytes} (h : Denotes depth sense bs) :
    Parses depth sense bs := by
  induction h with
  | null | true_ | false_ =>
    intro fuel rest hf _
    obtain ⟨fuel, rfl⟩ := Nat.exists_eq_succ_of_ne_zero (Nat.ne_zero_of_lt hf)
    rw [valueFrom]
    rfl
  | integer hn hi =>
    intro fuel rest hf hr
    obtain ⟨fuel, rfl⟩ := Nat.exists_eq_succ_of_ne_zero (Nat.ne_zero_of_lt hf)
    rw [valueFrom_number hn, readNumber_of_integer hn hi hr]
    rfl
  | double hn hi hx =>
    intro fuel rest hf hr
    obtain ⟨fuel, rfl⟩ := Nat.exists_eq_succ_of_ne_zero (Nat.ne_zero_of_lt hf)
    rw [valueFrom_number hn, readNumber_of_double hn hi hx hr]
    rfl
  | string h =>
    intro fuel rest hf _
    obtain ⟨fuel, rfl⟩ := Nat.exists_eq_succ_of_ne_zero (Nat.ne_zero_of_lt hf)
    rw [List.cons_append, List.append_assoc, List.singleton_append, valueFrom, skipSpace_cons rfl]
    simp only [if_true, readString_of_spells h, bind, Except.bind, pure, Except.pure]
  | @emptyList depth blanks h =>
    intro fuel rest hf _
    obtain ⟨fuel, rfl⟩ := Nat.exists_eq_succ_of_ne_zero (Nat.ne_zero_of_lt hf)
    obtain ⟨fuel, rfl⟩ := Nat.exists_eq_succ_of_ne_zero (show fuel ≠ 0 by simp at hf; omega)
    rw [List.cons_append, List.append_assoc, List.singleton_append, valueFrom_list,
      itemsFrom_blanks h, itemsFrom_closed]
    rfl
  | @list depth items vs _ ih =>
    intro fuel rest hf _
    obtain ⟨fuel, rfl⟩ := Nat.exists_eq_succ_of_ne_zero (Nat.ne_zero_of_lt hf)
    simp only [List.length_cons, List.length_append, List.length_nil] at hf
    have hitems := ih fuel true rest (by omega)
    rw [List.cons_append, List.append_assoc, List.singleton_append, valueFrom_list]
    rw [comma, if_pos rfl, List.nil_append] at hitems
    rw [hitems]
    rfl
  | @emptyObject depth blanks h =>
    intro fuel rest hf _
    obtain ⟨fuel, rfl⟩ := Nat.exists_eq_succ_of_ne_zero (Nat.ne_zero_of_lt hf)
    obtain ⟨fuel, rfl⟩ := Nat.exists_eq_succ_of_ne_zero (show fuel ≠ 0 by simp at hf; omega)
    rw [List.cons_append, List.append_assoc, List.singleton_append, valueFrom_object,
      membersFrom_blanks h, membersFrom_closed]
    rfl
  | @object depth members ms _ ih =>
    intro fuel rest hf _
    obtain ⟨fuel, rfl⟩ := Nat.exists_eq_succ_of_ne_zero (Nat.ne_zero_of_lt hf)
    simp only [List.length_cons, List.length_append, List.length_nil] at hf
    have hmembers := ih fuel true [] rest (by omega)
    rw [List.cons_append, List.append_assoc, List.singleton_append, valueFrom_object]
    rw [comma, if_pos rfl, List.nil_append] at hmembers
    rw [hmembers]
    rfl
  | @item depth before value after v hb _ ha ih =>
    intro fuel rest hf hr
    simp only [List.length_append] at hf
    refine ⟨after, ha, ?_⟩
    rw [List.append_assoc, valueFrom_blanks hb, List.append_assoc]
    exact ih fuel (after ++ rest) (by omega) (hr.blanks ha)
  | lastItem h ih =>
    intro fuel first rest hf
    obtain ⟨fuel, rfl⟩ := Nat.exists_eq_succ_of_ne_zero (Nat.ne_zero_of_lt hf)
    obtain ⟨more, rfl⟩ := Nat.exists_eq_succ_of_ne_zero (show fuel ≠ 0 by omega)
    rw [itemsFrom_item (derives_of_denotes h) ih (by omega) first (ends_cons rfl rest),
      itemsFrom_closed]
    rfl
  | @moreItems depth item items v vs h _ ih ihs =>
    intro fuel first rest hf
    simp only [List.length_append, List.length_cons] at hf
    obtain ⟨fuel, rfl⟩ := Nat.exists_eq_succ_of_ne_zero (Nat.ne_zero_of_lt hf)
    have hitems := ihs fuel false rest (by omega)
    rw [List.append_assoc, List.cons_append,
      itemsFrom_item (derives_of_denotes h) ih (by omega) first (ends_cons rfl _)]
    rw [comma, if_neg Bool.false_ne_true, List.singleton_append] at hitems
    rw [hitems]
    rfl
  | @member depth item member name v hm _ ih =>
    intro fuel first seen rest hf hr
    have hlt := hm.length_lt
    obtain ⟨after, ha, hv⟩ := ih fuel rest (by omega) hr
    obtain ⟨tail, hnext, tail', hname, hcolon⟩ := exists_nextName hm first rest
    rw [membersFrom, hnext]
    simp only [bind, Except.bind, readName, hname, hcolon, pure, Except.pure, hv,
      membersFrom_blanks ha]
  | lastMember h ih =>
    intro fuel first seen rest hf
    obtain ⟨fuel, rfl⟩ := Nat.exists_eq_succ_of_ne_zero (Nat.ne_zero_of_lt hf)
    obtain ⟨more, rfl⟩ := Nat.exists_eq_succ_of_ne_zero (show fuel ≠ 0 by omega)
    rw [ih _ first seen _ (by omega) (ends_cons rfl rest), membersFrom_closed, List.reverse_cons]
  | @moreMembers depth member members name v ms h _ ih ihs =>
    intro fuel first seen rest hf
    simp only [List.length_append, List.length_cons] at hf
    obtain ⟨fuel, rfl⟩ := Nat.exists_eq_succ_of_ne_zero (Nat.ne_zero_of_lt hf)
    have hmembers := ihs fuel false ((name, v) :: seen) rest (by omega)
    rw [List.append_assoc, List.cons_append, ih _ first seen _ (by omega) (ends_cons rfl _)]
    rw [comma, if_neg Bool.false_ne_true, List.singleton_append] at hmembers
    rw [hmembers, List.reverse_cons, List.append_assoc, List.singleton_append]

theorem readValue_of_denotes {depth : Nat} {item : Bytes} {v : Json}
    (h : Denotes depth (.item v) item) {rest : Bytes} (hr : Ends rest) :
    ∃ after, Blanks after ∧ readValue depth (item ++ rest) = .ok (v, after ++ rest) :=
  parses_of_denotes h _ rest (by simp only [List.length_append]; omega) hr

theorem finish_of_blanks {blanks : Bytes} (h : Blanks blanks) : finish blanks = .ok () := by
  have hskip := skipSpace_append h []
  rw [List.append_nil] at hskip
  rw [finish, hskip]
  rfl

/-- A text is parsed to what it stands for. -/
theorem parse_of_denotes {text : Bytes} {v : Json} (h : Denotes depthLimit (.item v) text) :
    parse text = .ok v := by
  obtain ⟨after, ha, hv⟩ := readValue_of_denotes h ends_nil
  rw [List.append_nil, List.append_nil] at hv
  rw [parse, hv]
  simp only [bind, Except.bind, finish_of_blanks ha, pure, Except.pure]

end VaultLink.Json
