import VaultLink.Json.Printer
import VaultLink.Proofs.Json.Edge
import VaultLink.Proofs.Json.Grammar

/-!
# What is written is JSON

The writer escapes whatever stands in a string, so that an object of strings follows the grammar
whatever their texts are (`isObject_render`). Its bytes are UTF-8 (`isText_render`), and since no number
stands in it, it never breaks off where a digit is wanting (`passes_render`).
-/

namespace VaultLink

namespace Utf8

/-- Bytes that spell a text. -/
def IsText (bs : Bytes) : Prop := ∃ text, bs = encode text

theorem encode_eq_flatMap (text : String) :
    encode text = text.toList.flatMap String.utf8EncodeChar := by
  conv => lhs; rw [← String.ofList_toList (s := text)]
  simp only [encode, String.toByteArray_ofList, List.utf8Encode]
  simp

theorem isText_nil : IsText [] := ⟨"", by decide⟩

theorem IsText.append {as bs : Bytes} (ha : IsText as) (hb : IsText bs) : IsText (as ++ bs) := by
  obtain ⟨s, rfl⟩ := ha
  obtain ⟨t, rfl⟩ := hb
  refine ⟨s ++ t, ?_⟩
  simp only [encode_eq_flatMap, String.toList_append, List.flatMap_append]

theorem isText_char (c : Char) : IsText (String.utf8EncodeChar c) := by
  refine ⟨String.ofList [c], ?_⟩
  simp only [encode_eq_flatMap, String.toList_ofList, List.flatMap_singleton]

theorem isText_singleton (b : UInt8) (h : b.toNat < 128) : IsText [b] := by
  have hall : ∀ n < 128, String.utf8EncodeChar (Char.ofNat n) = [UInt8.ofNat n] := by decide
  have hb := hall b.toNat h
  rw [UInt8.ofNat_toNat] at hb
  exact hb ▸ isText_char _

theorem IsText.cons {b : UInt8} {bs : Bytes} (hb : b.toNat < 128) (h : IsText bs) : IsText (b :: bs) :=
  (isText_singleton b hb).append h

theorem isText_ascii {bs : Bytes} (h : ∀ b ∈ bs, b.toNat < 128) : IsText bs := by
  induction bs with
  | nil => exact isText_nil
  | cons b bs ih =>
    obtain ⟨hb, hbs⟩ := List.forall_mem_cons.1 h
    exact .cons hb (ih hbs)

/-- An ASCII character is its own byte. -/
theorem utf8EncodeChar_of_lt {c : Char} (h : c.toNat < 128) :
    String.utf8EncodeChar c = [UInt8.ofNat c.toNat] := by
  unfold String.utf8EncodeChar
  simp only
  rw [if_pos (by show c.toNat ≤ 127; omega)]
  rfl

/-- None of the bytes of any other character is ASCII. -/
theorem le_of_mem_utf8EncodeChar {c : Char} (h : 128 ≤ c.toNat) :
    ∀ b ∈ String.utf8EncodeChar c, 128 ≤ b.toNat := by
  unfold String.utf8EncodeChar
  simp only
  rw [if_neg (by show ¬ c.toNat ≤ 127; omega)]
  repeat' split
  all_goals
    simp only [List.mem_cons, List.not_mem_nil, or_false, forall_eq_or_imp, forall_eq,
      UInt8.toNat_ofNat']
    omega

end Utf8

namespace Json

open Grammar Utf8

/-! ## Strings -/

theorem toNat_escapeByte {b c : UInt8} (hb : b.toNat < 128) (hc : c ∈ escapeByte b) :
    c.toNat < 128 := by
  have hall : ∀ n < 128, (escapeByte (UInt8.ofNat n)).all (·.toNat < 128) = true := by decide
  have := hall b.toNat hb
  rw [UInt8.ofNat_toNat, List.all_eq_true] at this
  exact of_decide_eq_true (this c hc)

theorem escapeByte_of_le {b : UInt8} (h : 128 ≤ b.toNat) : escapeByte b = [b] := by
  have hall : ∀ n < 128, escapeByte (UInt8.ofNat (128 + n)) = [UInt8.ofNat (128 + n)] := by decide
  have := hall (b.toNat - 128) (by have := b.toNat_lt; omega)
  rwa [Nat.add_sub_cancel' h, UInt8.ofNat_toNat] at this

/-- The bytes of a character that is not ASCII stand for themselves. -/
theorem flatMap_escapeByte_char {c : Char} (h : 128 ≤ c.toNat) :
    (String.utf8EncodeChar c).flatMap escapeByte = String.utf8EncodeChar c := by
  rw [List.flatMap_def,
    List.map_congr_left fun b hb => escapeByte_of_le (le_of_mem_utf8EncodeChar h b hb),
    ← List.flatMap_def, List.flatMap_singleton']

theorem isText_escape (text : String) : IsText ((encode text).flatMap escapeByte) := by
  rw [encode_eq_flatMap, List.flatMap_assoc]
  induction text.toList with
  | nil => exact isText_nil
  | cons c cs ih =>
    rw [List.flatMap_cons]
    refine IsText.append ?_ ih
    rcases Nat.lt_or_ge c.toNat 128 with hlt | hge
    · rw [utf8EncodeChar_of_lt hlt, List.flatMap_singleton]
      exact isText_ascii fun _ => toNat_escapeByte (by rw [UInt8.toNat_ofNat']; omega)
    · rw [flatMap_escapeByte_char hge]
      exact isText_char c

theorem isText_quote (text : String) : IsText (quote text) := by
  have hquote : IsText [0x22] := isText_singleton 0x22 (by decide)
  exact hquote.append ((isText_escape text).append hquote)

theorem hexValue?_hexByte {n : Nat} (h : n < 16) : (hexValue? (hexByte n)).isSome := by
  have hall : ∀ n < 16, (hexValue? (hexByte n)).isSome := by decide
  exact hall n h

/-- A byte may stand in a string as it is written. -/
theorem body_escapeByte (b : UInt8) {bs : Bytes} (h : Body bs) : Body (escapeByte b ++ bs) := by
  have hlt := b.toNat_lt
  unfold escapeByte
  split
  · rename_i hb
    simp only [Bool.or_eq_true, decide_eq_true_eq] at hb
    rcases hb with rfl | rfl <;> exact .letter (by decide) h
  · rename_i hb
    simp only [Bool.or_eq_true, decide_eq_true_eq, not_or] at hb
    repeat' split
    iterate 5 exact .letter (by decide) h
    · rename_i hcontrol
      have := UInt8.lt_iff_toNat_lt.1 hcontrol
      exact .unit rfl rfl (hexValue?_hexByte (by omega)) (hexValue?_hexByte (by omega)) h
    · rename_i hcontrol
      exact .plain (UInt8.not_lt.1 hcontrol) hb.1 hb.2 h

theorem body_escape (bs : Bytes) : Body (bs.flatMap escapeByte) := by
  induction bs with
  | nil => exact .nil
  | cons b bs ih => exact body_escapeByte b ih

/-! ## Objects of strings -/

/-- Members that are strings. -/
def AreTexts (members : Members) : Prop := ∀ member ∈ members, ∃ text, member.2 = .string text

theorem AreTexts.nil : AreTexts [] := List.forall_mem_nil _

theorem AreTexts.cons {name text : String} {members : Members} (h : AreTexts members) :
    AreTexts ((name, .string text) :: members) :=
  List.forall_mem_cons.2 ⟨⟨text, rfl⟩, h⟩

theorem AreTexts.tail {member : String × Json} {members : Members}
    (h : AreTexts (member :: members)) : AreTexts members :=
  fun m hm => h m (List.mem_cons_of_mem _ hm)

variable {members : Members}

/-- A member that is a string. -/
theorem derives_member (name text : String) :
    Derives .member (quote name ++ 0x3A :: quote text) := by
  have hblanks : Blanks [] := List.forall_mem_nil _
  have hitem : Derives .item (quote text) := by
    have := Derives.item hblanks (.string (body_escape (Utf8.encode text))) hblanks
    rwa [List.nil_append, List.append_nil] at this
  have := Derives.member hblanks (body_escape (Utf8.encode name)) hblanks hitem
  simpa only [quote, List.nil_append, List.cons_append, List.append_assoc] using this

theorem derives_renderMembers {name text : String} (h : AreTexts members) :
    Derives .members (renderMembers true ((name, .string text) :: members)) := by
  induction members generalizing name text with
  | nil =>
    have := Derives.lastMember (derives_member name text)
    simpa only [renderMembers, render, if_true, List.nil_append, List.append_nil] using this
  | cons member members ih =>
    obtain ⟨next, value⟩ := member
    obtain ⟨text', rfl⟩ := h _ List.mem_cons_self
    have := Derives.moreMembers (derives_member name text) (@ih next text' h.tail)
    simpa [renderMembers, render] using this

/-- An object of strings follows the grammar. -/
theorem isObject_render (h : AreTexts members) : IsObject (render (.object members)) := by
  refine ⟨renderMembers true members, by rw [render], ?_⟩
  cases members with
  | nil => exact .inl (List.forall_mem_nil _)
  | cons member members =>
    obtain ⟨name, value⟩ := member
    obtain ⟨text, rfl⟩ := h _ List.mem_cons_self
    exact .inr (derives_renderMembers h.tail)

/-- What holds of strings and of the bytes between them holds of an object of strings. -/
theorem render_of_append {P : Bytes → Prop} (hnil : P [])
    (happend : ∀ {as bs : Bytes}, P as → P bs → P (as ++ bs)) (hquote : ∀ text, P (quote text))
    (hmark : ∀ b ∈ [0x7B, 0x7D, 0x2C, 0x3A], P [b]) (h : AreTexts members) :
    P (render (.object members)) := by
  have hmembers (first : Bool) : P (renderMembers first members) := by
    induction members generalizing first with
    | nil => exact hnil
    | cons member members ih =>
      obtain ⟨name, value⟩ := member
      obtain ⟨text, rfl⟩ := h _ List.mem_cons_self
      have hcomma : P (if first then [] else [0x2C]) := by
        cases first
        · exact hmark _ (by decide)
        · exact hnil
      have hmember : P (0x3A :: render (.string text)) :=
        happend (hmark _ (by decide)) (hquote text)
      exact happend (happend (happend hcomma (hquote name)) hmember) (ih h.tail false)
  exact happend (hmark _ (by decide)) (happend (hmembers true) (hmark _ (by decide)))

/-- The bytes of an object of strings are UTF-8. -/
theorem isText_render (h : AreTexts members) : IsText (render (.object members)) := by
  refine render_of_append isText_nil IsText.append isText_quote (fun b hb => ?_) h
  refine isText_singleton b ?_
  simp only [List.mem_cons, List.not_mem_nil, or_false] at hb
  rcases hb with rfl | rfl | rfl | rfl <;> decide

/-! ## No number -/

namespace Edge

/-- Bytes that lead from edge to edge and never to where a digit is wanting. -/
structure Passes (edge edge' : Edge) (bs : Bytes) : Prop where
  after_eq : edge.after bs = edge'
  ne_wanting : ∀ part, part <+: bs → edge.after part ≠ .wanting

variable {edge edge' edge'' : Edge}

theorem Passes.nil (h : edge ≠ .wanting) : Passes edge edge [] :=
  ⟨rfl, fun _ hp => by rw [List.prefix_nil.1 hp]; exact h⟩

theorem Passes.cons {b : UInt8} {bs : Bytes} (h : edge ≠ .wanting)
    (hp : Passes (edge.next b) edge' bs) : Passes edge edge' (b :: bs) := by
  refine ⟨hp.after_eq, fun part hpart => ?_⟩
  rcases List.prefix_cons_iff.1 hpart with rfl | ⟨rest, rfl, hrest⟩
  · exact h
  · exact hp.ne_wanting rest hrest

theorem Passes.append {as bs : Bytes} (ha : Passes edge edge' as) (hb : Passes edge' edge'' bs) :
    Passes edge edge'' (as ++ bs) := by
  induction as generalizing edge with
  | nil =>
    obtain rfl : edge = edge' := ha.after_eq
    exact hb
  | cons b as ih =>
    refine .cons (ha.ne_wanting [] List.nil_prefix) (ih ⟨ha.after_eq, fun part hp => ?_⟩)
    exact ha.ne_wanting (b :: part) (List.cons_prefix_cons.2 ⟨rfl, hp⟩)

theorem passes_body {bs : Bytes} (h : Body bs) : Passes .text .text bs := by
  have htext : text ≠ wanting := by decide
  have hescape : escape ≠ wanting := by decide
  have hdigits (seen : Nat) : digits seen ≠ wanting := fun h => by cases h
  induction h with
  | nil => exact .nil htext
  | @plain b bs _ h₁ h₂ _ ih =>
    have hb : text.next b = text := by simp [next, h₁, h₂]
    refine .cons htext ?_
    rwa [hb]
  | @letter e bs he _ ih =>
    have hletter : escape.next e = text := by
      simp only [List.mem_cons, List.not_mem_nil, or_false] at he
      rcases he with rfl | rfl | rfl | rfl | rfl | rfl | rfl | rfl <;> rfl
    refine .cons htext (.cons hescape ?_)
    show Passes (escape.next e) text bs
    rwa [hletter]
  | unit _ _ _ _ _ ih =>
    exact .cons htext (.cons hescape (.cons (hdigits 0) (.cons (hdigits 1) (.cons (hdigits 2)
      (.cons (hdigits 3) ih)))))

theorem passes_quote (text : String) : Passes .plain .plain (quote text) := by
  have hclose : Passes .text .plain [0x22] := .cons (by decide) (.nil (by decide))
  exact .cons (by decide) ((passes_body (body_escape _)).append hclose)

/-- No number stands in an object of strings. -/
theorem passes_render (h : AreTexts members) : Passes .plain .plain (render (.object members)) := by
  refine render_of_append (.nil (by decide)) Passes.append passes_quote (fun b hb => ?_) h
  have hplain : plain.next b = plain := by
    simp only [List.mem_cons, List.not_mem_nil, or_false] at hb
    rcases hb with rfl | rfl | rfl | rfl <;> rfl
  refine .cons (by decide) ?_
  rw [hplain]
  exact .nil (by decide)

end Edge

end Json

end VaultLink
