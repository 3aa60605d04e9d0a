import VaultLink.Proofs.Json.Reading

/-!
# Whole values are read back

The compact text of a value stands for the value, however its lists and objects are nested, as long as
no more of them stand inside one another than a text may have and no number is a double
(`denotes_render_value`). So it is what the text is parsed to (`parse_render_value`), and the text is UTF-8
(`isText_render_value`).

* `counts_digitsOfInt`: an integer is written as the numeral that counts to it, at the limits of 64 bits too;
* `Integral`, `Nests`: values without doubles, and values that so many containers are enough for.
-/

namespace VaultLink.Json

open Grammar

/-! ## Integers -/

theorem byteOf_toNat {c : Char} (h : c.isDigit = true) : (byteOf c).toNat = c.toNat := by
  have hc := h
  simp only [Char.isDigit, Bool.and_eq_true, decide_eq_true_eq] at hc
  have hle : c.toNat ≤ 57 := UInt32.le_iff_toNat_le.1 hc.2
  rw [byteOf, Nat.toUInt8_eq, UInt8.toNat_ofNat', Nat.mod_eq_of_lt (by omega)]

theorem isDigit_byteOf {c : Char} (h : c.isDigit = true) : isDigit (byteOf c) = true := by
  have hc := h
  simp only [Char.isDigit, Bool.and_eq_true, decide_eq_true_eq] at hc
  have h₁ : 48 ≤ c.toNat := UInt32.le_iff_toNat_le.1 hc.1
  have h₂ : c.toNat ≤ 57 := UInt32.le_iff_toNat_le.1 hc.2
  simp only [isDigit, Bool.and_eq_true, decide_eq_true_eq, UInt8.le_iff_toNat_le, byteOf_toNat h]
  exact ⟨h₁, h₂⟩

/-- The digits of a number count to it. -/
theorem ofDigits_digitsOf (n : Nat) :
    Numeral.ofDigits ((ascii (Decimal.digitsOf n)).map digitValue) = n := by
  have hfold (cs : List Char) (h : ∀ c ∈ cs, c.isDigit = true) (acc : Nat) :
      ((ascii cs).map digitValue).foldl (fun n d => 10 * n + d) acc = Nat.ofDigitChars 10 cs acc := by
    induction cs generalizing acc with
    | nil => rfl
    | cons c cs ih =>
      obtain ⟨hc, hcs⟩ := List.forall_mem_cons.1 h
      have hvalue : digitValue (byteOf c) = c.toNat - '0'.toNat := by
        rw [digitValue, byteOf_toNat hc]
        rfl
      rw [Nat.ofDigitChars_cons, ← ih hcs, ← hvalue]
      rfl
  have hdigits : ∀ c ∈ Decimal.digitsOf n, c.isDigit = true :=
    fun c hc => Nat.isDigit_of_mem_toDigits (by decide) (by decide) hc
  rw [Numeral.ofDigits, hfold _ hdigits, Decimal.digitsOf, Nat.ofDigitChars_ten_toDigits]

theorem digits_digitsOf (n : Nat) : Digits (ascii (Decimal.digitsOf n)) := by
  intro b hb
  obtain ⟨c, hc, rfl⟩ := List.mem_map.1 hb
  exact isDigit_byteOf (Nat.isDigit_of_mem_toDigits (by decide) (by decide) hc)

/-- The first digit of a positive number is not zero. -/
theorem head_digitsOf_ne {n : Nat} (h : 0 < n) :
    ∀ b ∈ (ascii (Decimal.digitsOf n)).head?, b ≠ 0x30 := by
  induction n using Nat.strongRecOn with
  | _ n ih =>
    have hsplit : Decimal.digitsOf n = if n < 10 then [n.digitChar] else
        Decimal.digitsOf (n / 10) ++ [(n % 10).digitChar] := Nat.toDigits_eq_if (by decide)
    rw [hsplit]
    split
    · rename_i hlt
      have hall : ∀ n < 10, 0 < n → byteOf n.digitChar ≠ 0x30 := by decide
      intro b hb
      cases hb
      exact hall n hlt h
    · obtain ⟨c, cs, hc⟩ := List.exists_cons_of_ne_nil (Nat.toDigits_ne_nil (n := n / 10) (b := 10))
      have hprefix := ih (n / 10) (by omega) (by omega)
      rw [Decimal.digitsOf, hc] at hprefix ⊢
      exact hprefix

/-- A number is written without zeros in front. -/
theorem whole_digitsOf (n : Nat) : Whole (ascii (Decimal.digitsOf n)) := by
  rcases Nat.eq_zero_or_pos n with rfl | hpos
  · exact .zero
  · have hhead := head_digitsOf_ne hpos
    have hdigits := digits_digitsOf n
    obtain ⟨b, bs, hb⟩ : ∃ b bs, ascii (Decimal.digitsOf n) = b :: bs := by
      refine List.exists_cons_of_ne_nil fun h => ?_
      exact Nat.toDigits_ne_nil (List.map_eq_nil_iff.1 h)
    rw [hb] at hhead hdigits ⊢
    obtain ⟨hd, hds⟩ := List.forall_mem_cons.1 hdigits
    exact .digits hd (hhead b rfl) hds

/-- The numeral that an integer is written as. -/
def numeralOf (i : Int) : Numeral :=
  ⟨i < 0, (ascii (Decimal.digitsOf i.natAbs)).map digitValue, none, none⟩

theorem counts_digitsOfInt (i : Int) : Counts (ascii (Decimal.digitsOfInt i)) (numeralOf i) := by
  have hcounts : Counts _ ⟨decide (i < 0), _, none, none⟩ :=
    .parts (whole_digitsOf i.natAbs) .absent .absent
  rw [List.append_nil, List.append_nil] at hcounts
  unfold Decimal.digitsOfInt numeralOf
  by_cases hneg : i < 0
  · simp only [hneg, decide_true, if_true] at hcounts ⊢
    exact hcounts
  · simp only [hneg, decide_false, Bool.false_eq_true, if_false] at hcounts ⊢
    exact hcounts

theorem integer?_numeralOf (i : WideInt) : (numeralOf i.val).integer? = some i := by
  obtain ⟨i, hlower, hupper⟩ := i
  have hvalue : Numeral.ofDigits (numeralOf i).whole = i.natAbs := ofDigits_digitsOf i.natAbs
  have hsigned : (if (numeralOf i).negative then -(i.natAbs : Int) else i.natAbs) = i := by
    simp only [numeralOf, decide_eq_true_eq]
    split <;> omega
  have hzero : ((numeralOf i).negative && decide (i.natAbs = 0)) = false := by
    simp only [numeralOf, Bool.and_eq_false_iff, decide_eq_false_iff_not]
    omega
  have hparts : (numeralOf i).fraction = none ∧ (numeralOf i).exponent = none := ⟨rfl, rfl⟩
  simp only [Numeral.integer?, hvalue, hsigned, hzero, hparts, Option.isNone_none, Bool.and_self,
    Bool.not_false, if_true, WideInt.ofInt?]
  exact dif_pos ⟨hlower, hupper⟩

/-! ## Values -/

/-- No number inside the value is a double. -/
inductive Integral : Json → Prop
  | null : Integral .null
  | bool (b : Bool) : Integral (.bool b)
  | int (i : WideInt) : Integral (.number (.int i))
  | string (s : String) : Integral (.string s)
  | array {items : List Json} : (∀ item ∈ items, Integral item) → Integral (.array items)
  | object {members : Members} : (∀ member ∈ members, Integral member.2) → Integral (.object members)

/-- No more than so many containers stand inside one another in the value, itself included. -/
inductive Nests : Nat → Json → Prop
  | null (depth : Nat) : Nests depth .null
  | bool (depth : Nat) (b : Bool) : Nests depth (.bool b)
  | number (depth : Nat) (n : Number) : Nests depth (.number n)
  | string (depth : Nat) (s : String) : Nests depth (.string s)
  | array {depth : Nat} {items : List Json} : (∀ item ∈ items, Nests depth item) →
    Nests (depth + 1) (.array items)
  | object {depth : Nat} {members : Members} : (∀ member ∈ members, Nests depth member.2) →
    Nests (depth + 1) (.object members)

theorem renderItems_cons (first : Bool) (item : Json) (items : List Json) :
    renderItems first (item :: items) = comma first ++ (render item ++ renderItems false items) := by
  simp [renderItems, comma]

/-- Items stand for themselves if each of them does. -/
theorem denotes_renderItems {item : Json} {items : List Json} {depth : Nat}
    (h : ∀ v ∈ item :: items, Denotes depth (.value v) (render v)) :
    Denotes depth (.items (item :: items)) (renderItems true (item :: items)) := by
  have hitem := (h item List.mem_cons_self).item_of_value
  induction items generalizing item with
  | nil =>
    rw [renderItems_cons, renderItems, comma, if_pos rfl, List.nil_append, List.append_nil]
    exact .lastItem hitem
  | cons next items ih =>
    have hmore := fun v hv => h v (List.mem_cons_of_mem _ hv)
    have := Denotes.moreItems hitem (ih hmore (hmore next List.mem_cons_self).item_of_value)
    rwa [renderItems_cons true] at this ⊢

/-- A value is what its text stands for. -/
theorem denotes_render_value {v : Json} (hw : v.WellFormed) (hi : v.Integral) {depth : Nat}
    (hn : v.Nests depth) : Denotes depth (.value v) (render v) := by
  induction hw generalizing depth with
  | null => rw [render]; exact .null
  | bool b => rw [render]; cases b <;> constructor
  | number n =>
    cases hi with
    | int i =>
      rw [render]
      exact .integer (counts_digitsOfInt i.val) (integer?_numeralOf i)
  | string s => rw [render]; exact .string (spells_escape s)
  | array items _ ih =>
    cases hi with
    | array hi =>
      cases hn with
      | array hn =>
        have hitems := fun item hm => ih item hm (hi item hm) (hn item hm)
        rw [render]
        cases items with
        | nil => exact .emptyList (List.forall_mem_nil _)
        | cons => exact .list (denotes_renderItems hitems)
  | object members ho _ ih =>
    cases hi with
    | object hi =>
      cases hn with
      | object hn =>
        have hmembers := fun member hm => ih member hm (hi member hm) (hn member hm)
        rw [render]
        cases members with
        | nil => exact .emptyObject (List.forall_mem_nil _)
        | cons =>
          have := Denotes.object (denotes_renderMembers hmembers)
          rwa [Members.ofList_of_ordered ho] at this

/-- A value is what its text is parsed to. -/
theorem parse_render_value {v : Json} (hw : v.WellFormed) (hi : v.Integral)
    (hn : v.Nests depthLimit) : parse (render v) = .ok v :=
  parse_of_denotes (denotes_render_value hw hi hn).item_of_value

/-! ## UTF-8 -/

theorem isText_of_all {bs : Bytes} (h : bs.all (·.toNat < 128) = true) : Utf8.IsText bs :=
  Utf8.isText_ascii fun b hb => of_decide_eq_true (List.all_eq_true.1 h b hb)

theorem isText_comma (first : Bool) : Utf8.IsText (comma first) := by
  cases first with
  | false => exact Utf8.isText_singleton 0x2C (by decide)
  | true => exact Utf8.isText_nil

theorem isText_digitsOfInt (i : Int) : Utf8.IsText (ascii (Decimal.digitsOfInt i)) := by
  have hdigits : Utf8.IsText (ascii (Decimal.digitsOf i.natAbs)) := by
    refine Utf8.isText_ascii fun b hb => ?_
    have hd := digits_digitsOf i.natAbs b hb
    simp only [isDigit, Bool.and_eq_true, decide_eq_true_eq, UInt8.le_iff_toNat_le] at hd
    exact Nat.lt_of_le_of_lt hd.2 (by decide)
  unfold Decimal.digitsOfInt
  split
  · exact .cons (by decide) hdigits
  · exact hdigits

theorem isText_renderItems {items : List Json} (h : ∀ item ∈ items, Utf8.IsText (render item))
    (first : Bool) : Utf8.IsText (renderItems first items) := by
  induction items generalizing first with
  | nil => exact Utf8.isText_nil
  | cons item items ih =>
    obtain ⟨hitem, hitems⟩ := List.forall_mem_cons.1 h
    rw [renderItems_cons]
    exact (isText_comma first).append (hitem.append (ih hitems false))

theorem isText_renderMembers {members : Members} (h : ∀ m ∈ members, Utf8.IsText (render m.2))
    (first : Bool) : Utf8.IsText (renderMembers first members) := by
  induction members generalizing first with
  | nil => exact Utf8.isText_nil
  | cons member members ih =>
    obtain ⟨hmember, hmembers⟩ := List.forall_mem_cons.1 h
    rw [renderMembers_cons]
    exact (isText_comma first).append (((isText_quote member.1).append (.cons (by decide) hmember)).append
      (ih hmembers false))

/-- The text of a value is UTF-8. -/
theorem isText_render_value {v : Json} (h : v.Integral) : Utf8.IsText (render v) := by
  induction h with
  | null => rw [render]; exact isText_of_all (by decide)
  | bool b => rw [render]; cases b <;> exact isText_of_all (by decide)
  | int i => rw [render]; exact isText_digitsOfInt i.val
  | string s => rw [render]; exact isText_quote s
  | array _ ih =>
    rw [render]
    exact .cons (by decide) ((isText_renderItems ih true).append (Utf8.isText_singleton _ (by decide)))
  | object _ ih =>
    rw [render]
    exact .cons (by decide) ((isText_renderMembers ih true).append (Utf8.isText_singleton _ (by decide)))

end VaultLink.Json
