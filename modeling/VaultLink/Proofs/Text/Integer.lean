import VaultLink.Text.Blank
import VaultLink.Text.Decimal
import VaultLink.Text.Integer

/-!
# Which texts are integers

A text without the blanks at its ends is what stands between blanks (`Blank.trimChars_append`), and an
integer is read from it just if that is an optional sign and digits, with a value that fits 64 bits
(`Integer.signed64?_trim_eq_some_iff`). The digits of a number are read as the number
(`Integer.unsigned64?_trim_digitsOf`), and with their sign they are such an integer
(`Integer.written_digitsOfInt`).
-/

namespace VaultLink

namespace Blank

/-- Only blanks are taken off the ends. -/
theorem exists_eq_append_trimChars (cs : List Char) :
    ∃ before after, cs = before ++ (trimChars cs ++ after) ∧ (∀ c ∈ before, isBlank c = true) ∧
      ∀ c ∈ after, isBlank c = true := by
  have hall (ds : List Char) : ∀ c ∈ ds.takeWhile isBlank, isBlank c = true :=
    List.all_eq_true.1 List.all_takeWhile
  refine ⟨cs.takeWhile isBlank, ((cs.dropWhile isBlank).reverse.takeWhile isBlank).reverse, ?_,
    hall cs, fun c hc => hall _ c (List.mem_reverse.1 hc)⟩
  rw [trimChars, ← List.reverse_append, List.takeWhile_append_dropWhile, List.reverse_reverse,
    List.takeWhile_append_dropWhile]

/-- What stands between blanks and neither starts nor ends with one is left. -/
theorem trimChars_append {before middle after : List Char} (hb : ∀ c ∈ before, isBlank c = true)
    (ha : ∀ c ∈ after, isBlank c = true) (hm : ∀ c ∈ middle, isBlank c = false) (hne : middle ≠ []) :
    trimChars (before ++ (middle ++ after)) = middle := by
  have hfront (cs ds : List Char) (hs : ∀ c ∈ cs, isBlank c = false) (hne : cs ≠ []) :
      (cs ++ ds).dropWhile isBlank = cs ++ ds := by
    obtain ⟨c, cs, rfl⟩ := List.exists_cons_of_ne_nil hne
    rw [List.cons_append, List.dropWhile_cons_of_neg]
    rw [hs c List.mem_cons_self]
    exact Bool.false_ne_true
  have hback : (after.reverse ++ middle.reverse).dropWhile isBlank = middle.reverse := by
    rw [List.dropWhile_append_of_pos fun c hc => ha c (List.mem_reverse.1 hc)]
    have := hfront middle.reverse [] (fun c hc => hm c (List.mem_reverse.1 hc))
      (fun h => hne (List.reverse_eq_nil_iff.1 h))
    rwa [List.append_nil] at this
  rw [trimChars, List.dropWhile_append_of_pos hb, hfront _ _ hm hne, List.reverse_append, hback,
    List.reverse_reverse]

end Blank

namespace Integer

/-- The number that digits stand for. -/
def ofDigits (ds : List Char) : Nat := ds.foldl (fun n c => 10 * n + (c.toNat - '0'.toNat)) 0

/-- An optional sign and digits, and the integer that they stand for. -/
inductive Written : List Char → Int → Prop
  | unsigned {d : Char} {ds : List Char} : (∀ c ∈ d :: ds, c.isDigit = true) →
    Written (d :: ds) (ofDigits (d :: ds))
  | plus {d : Char} {ds : List Char} : (∀ c ∈ d :: ds, c.isDigit = true) →
    Written ('+' :: d :: ds) (ofDigits (d :: ds))
  | minus {d : Char} {ds : List Char} : (∀ c ∈ d :: ds, c.isDigit = true) →
    Written ('-' :: d :: ds) (-(ofDigits (d :: ds) : Int))

/-- No blank stands in a written integer. -/
theorem Written.not_blank {cs : List Char} {i : Int} (h : Written cs i) :
    cs ≠ [] ∧ ∀ c ∈ cs, Blank.isBlank c = false := by
  have hdigit {c : Char} (hc : c.isDigit = true) : Blank.isBlank c = false := by
    simp only [Char.isDigit, Bool.and_eq_true, decide_eq_true_eq] at hc
    have h₁ : 48 ≤ c.toNat := UInt32.le_iff_toNat_le.1 hc.1
    have h₂ : c.toNat ≤ 57 := UInt32.le_iff_toNat_le.1 hc.2
    simp only [Blank.isBlank, Bool.or_eq_false_iff, Bool.and_eq_false_iff, decide_eq_false_iff_not]
    omega
  cases h with
  | unsigned h => exact ⟨nofun, fun c hc => hdigit (h c hc)⟩
  | plus h => exact ⟨nofun, List.forall_mem_cons.2 ⟨by decide, fun c hc => hdigit (h c hc)⟩⟩
  | minus h => exact ⟨nofun, List.forall_mem_cons.2 ⟨by decide, fun c hc => hdigit (h c hc)⟩⟩

theorem ofDigits?_eq_some_iff {cs : List Char} {n : Nat} :
    ofDigits? cs = some n ↔ cs ≠ [] ∧ (∀ c ∈ cs, c.isDigit = true) ∧ n = ofDigits cs := by
  unfold ofDigits?
  split
  · rename_i h
    refine ⟨nofun, fun ⟨hne, hd, _⟩ => ?_⟩
    rw [Bool.or_eq_true, List.isEmpty_iff, Bool.not_eq_true', List.all_eq_false] at h
    rcases h with h | ⟨c, hc, hnot⟩
    · exact absurd h hne
    · exact absurd (hd c hc) hnot
  · rename_i h
    rw [Bool.or_eq_true, List.isEmpty_iff, Bool.not_eq_true', not_or, Bool.not_eq_false,
      List.all_eq_true] at h
    exact ⟨fun hn => ⟨h.1, h.2, (Option.some.inj hn).symm⟩, fun ⟨_, _, hn⟩ => by rw [hn]; rfl⟩

theorem ofSigned?_eq_some_iff {cs : List Char} {i : Int} : ofSigned? cs = some i ↔ Written cs i := by
  constructor
  · intro h
    unfold ofSigned? at h
    split at h
    · obtain ⟨_, hm, rfl⟩ := Option.map_eq_some_iff.1 h
      obtain ⟨n, hn, hi⟩ := Option.bind_eq_some_iff.1 hm
      obtain ⟨hne, hd, rfl⟩ := ofDigits?_eq_some_iff.1 hn
      obtain ⟨d, ds, rfl⟩ := List.exists_cons_of_ne_nil hne
      cases hi
      exact .minus hd
    · obtain ⟨n, hn, rfl⟩ := Option.map_eq_some_iff.1 h
      obtain ⟨hne, hd, rfl⟩ := ofDigits?_eq_some_iff.1 hn
      obtain ⟨d, ds, rfl⟩ := List.exists_cons_of_ne_nil hne
      exact .plus hd
    · obtain ⟨n, hn, rfl⟩ := Option.map_eq_some_iff.1 h
      obtain ⟨hne, hd, rfl⟩ := ofDigits?_eq_some_iff.1 hn
      obtain ⟨d, ds, rfl⟩ := List.exists_cons_of_ne_nil hne
      exact .unsigned hd
  · intro h
    cases h with
    | @unsigned d ds h =>
      have hne : d ≠ '-' ∧ d ≠ '+' := by
        constructor <;> rintro rfl <;> exact absurd (h _ List.mem_cons_self) (by decide)
      rw [ofSigned?]
      · rw [ofDigits?_eq_some_iff.2 ⟨List.cons_ne_nil _ _, h, rfl⟩]
        rfl
      · rintro _ heq
        cases heq
        exact hne.1 rfl
      · rintro _ heq
        cases heq
        exact hne.2 rfl
    | plus h =>
      rw [ofSigned?, ofDigits?_eq_some_iff.2 ⟨List.cons_ne_nil _ _, h, rfl⟩]
      rfl
    | minus h =>
      rw [ofSigned?, ofDigits?_eq_some_iff.2 ⟨List.cons_ne_nil _ _, h, rfl⟩]
      rfl

/-- An integer is read from a text, apart from the blanks at its ends, just if it is written there and
fits 64 bits with a sign. -/
theorem signed64?_trim_eq_some_iff {text : String} {i : Int} :
    signed64? (Blank.trim text) = some i ↔
      -9223372036854775808 ≤ i ∧ i < 9223372036854775808 ∧ ∃ before cs after,
        text.toList = before ++ (cs ++ after) ∧ (∀ c ∈ before, Blank.isBlank c = true) ∧
          (∀ c ∈ after, Blank.isBlank c = true) ∧ Written cs i := by
  rw [signed64?, Option.filter_eq_some_iff, ofSigned?_eq_some_iff, Blank.trim, String.toList_ofList]
  simp only [Bool.and_eq_true, decide_eq_true_eq]
  constructor
  · rintro ⟨hw, hl, hu⟩
    obtain ⟨before, after, htext, hb, ha⟩ := Blank.exists_eq_append_trimChars text.toList
    exact ⟨hl, hu, before, _, after, htext, hb, ha, hw⟩
  · rintro ⟨hl, hu, before, cs, after, htext, hb, ha, hw⟩
    rw [htext, Blank.trimChars_append hb ha hw.not_blank.2 hw.not_blank.1]
    exact ⟨hw, hl, hu⟩

/-- A number is written as one digit or more, which stand for it. -/
theorem exists_digitsOf (n : Nat) : ∃ d ds, Decimal.digitsOf n = d :: ds ∧
    (∀ c ∈ d :: ds, c.isDigit = true) ∧ ofDigits (d :: ds) = n := by
  have hdigits : ∀ c ∈ Decimal.digitsOf n, c.isDigit = true :=
    fun c hc => Nat.isDigit_of_mem_toDigits (by decide) (by decide) hc
  have hvalue : ofDigits (Decimal.digitsOf n) = n := Nat.ofDigitChars_ten_toDigits
  obtain ⟨d, ds, hd⟩ : ∃ d ds, Decimal.digitsOf n = d :: ds :=
    List.exists_cons_of_ne_nil Nat.toDigits_ne_nil
  rw [hd] at hdigits hvalue
  exact ⟨d, ds, hd, hdigits, hvalue⟩

theorem written_digitsOfInt (i : Int) : Written (Decimal.digitsOfInt i) i := by
  obtain ⟨d, ds, hd, hdigits, hvalue⟩ := exists_digitsOf i.natAbs
  unfold Decimal.digitsOfInt
  rw [hd]
  split
  · have hwritten := Written.minus hdigits
    rwa [hvalue, show -(i.natAbs : Int) = i by omega] at hwritten
  · have hwritten := Written.unsigned hdigits
    rwa [hvalue, show (i.natAbs : Int) = i by omega] at hwritten

/-- The digits of a number that fits 64 bits are read as it. -/
theorem unsigned64?_trim_digitsOf {n : Nat} (h : n < Nat.pow 2 64) :
    unsigned64? (Blank.trim (String.ofList (Decimal.digitsOf n))) = some n ∧
      unsigned64? (String.ofList (Decimal.digitsOf n)) = some n := by
  obtain ⟨d, ds, hd, hdigit, hvalue⟩ := exists_digitsOf n
  have hnumber : ofDigits? (d :: ds) = some n :=
    ofDigits?_eq_some_iff.2 ⟨List.cons_ne_nil _ _, hdigit, hvalue.symm⟩
  rw [hd]
  have hread : unsigned64? (String.ofList (d :: ds)) = some n := by
    have hne : d ≠ '+' := by
      rintro rfl
      exact absurd (hdigit _ List.mem_cons_self) (by decide)
    simp only [unsigned64?, String.toList_ofList]
    split
    · rename_i heq
      cases heq
      exact absurd rfl hne
    · exact Option.filter_eq_some_iff.2 ⟨hnumber, decide_eq_true h⟩
  have htrim := @Blank.trimChars_append [] (d :: ds) [] nofun nofun
    (Written.unsigned hdigit).not_blank.2 (Written.unsigned hdigit).not_blank.1
  rw [List.nil_append, List.append_nil] at htrim
  rw [Blank.trim, String.toList_ofList, htrim]
  exact ⟨hread, hread⟩

end Integer

end VaultLink
