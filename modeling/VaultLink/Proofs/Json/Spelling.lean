import VaultLink.Proofs.Json.Parsing
import VaultLink.Proofs.Steps

/-!
# Every string that is read is spelled

The reader takes a string byte by byte, and looks at characters only in the end. It still takes nothing
but what spells the text that it answers (`readString_eq_ok_iff`): no escape puts bytes into the middle of
a character, because each of them stands for whole characters.
-/

namespace VaultLink

/-! ## Characters and their bytes -/

namespace Utf8

/-- Only the first byte of a character can be a first byte. -/
theorem exists_utf8EncodeChar (c : Char) : ∃ b more, String.utf8EncodeChar c = b :: more ∧
    b.IsUTF8FirstByte ∧ ∀ k ∈ more, ¬ k.IsUTF8FirstByte := by
  have hfirst {i : Nat} (hi : i < (String.utf8EncodeChar c).length) :
      (String.utf8EncodeChar c)[i].IsUTF8FirstByte ↔ i = 0 := by
    have hsingle : [c].utf8Encode = (String.utf8EncodeChar c).toByteArray := by
      simp [List.utf8Encode]
    have := @List.isUTF8FirstByte_getElem_utf8Encode_singleton c i (by simpa [hsingle] using hi)
    simpa only [hsingle, List.getElem_toByteArray] using this
  rcases hc : String.utf8EncodeChar c with _ | ⟨b, more⟩
  · exact absurd hc (by simp)
  · simp only [hc] at hfirst
    refine ⟨b, more, rfl, (hfirst (Nat.zero_lt_succ _)).2 rfl, fun k hk hfirstByte => ?_⟩
    obtain ⟨i, hi, rfl⟩ := List.getElem_of_mem hk
    have := (hfirst (Nat.succ_lt_succ hi)).1 (by simpa using hfirstByte)
    cases this

/-- Where one character ends is told by its bytes. -/
theorem utf8EncodeChar_append_inj {c d : Char} {as bs : Bytes}
    (h : String.utf8EncodeChar c ++ as = String.utf8EncodeChar d ++ bs) : c = d ∧ as = bs := by
  have hdecode (c : Char) (as : Bytes) :
      (String.utf8EncodeChar c ++ as).toByteArray.utf8DecodeChar? 0 = some c := by
    have := List.utf8DecodeChar?_utf8Encode_singleton_append (b := as.toByteArray) (c := c)
    simpa [List.utf8Encode] using this
  have hc := hdecode c as
  rw [h, hdecode d bs] at hc
  cases hc
  exact ⟨rfl, List.append_cancel_left h⟩

end Utf8

namespace Json

open Grammar

/-! ## Bytes for bytes -/

/-- The bytes between the quotes of a string, and the bytes that the reader makes of them. -/
inductive Resolves : Bytes → Bytes → Prop
  | nil : Resolves [] []
  | plain {b : UInt8} {bs out : Bytes} : ¬ b < 0x20 → b ≠ 0x22 → b ≠ 0x5C → Resolves bs out →
    Resolves (b :: bs) (b :: out)
  | letter {e b : UInt8} {bs out : Bytes} : simpleEscape? e = some b → Resolves bs out →
    Resolves (0x5C :: e :: bs) (b :: out)
  | unit {h₁ h₂ h₃ h₄ : UInt8} {n : Nat} {bs out : Bytes} :
    hexFour? h₁ h₂ h₃ h₄ = some n → isHighSurrogate n = false → isLowSurrogate n = false →
    Resolves bs out → Resolves (0x5C :: 0x75 :: h₁ :: h₂ :: h₃ :: h₄ :: bs)
      (String.utf8EncodeChar (Char.ofNat n) ++ out)
  | pair {h₁ h₂ h₃ h₄ l₁ l₂ l₃ l₄ : UInt8} {high low : Nat} {bs out : Bytes} :
    hexFour? h₁ h₂ h₃ h₄ = some high → hexFour? l₁ l₂ l₃ l₄ = some low →
    isHighSurrogate high = true → isLowSurrogate low = true → Resolves bs out →
    Resolves (0x5C :: 0x75 :: h₁ :: h₂ :: h₃ :: h₄ :: 0x5C :: 0x75 :: l₁ :: l₂ :: l₃ :: l₄ :: bs)
      (String.utf8EncodeChar (Char.ofNat (pairValue high low)) ++ out)

/-- What is read up to a closing quote resolves to what is answered. -/
theorem resolves_of_readStringFrom {acc bs out rest : Bytes}
    (h : readStringFrom acc bs = .ok (out, rest)) :
    ∃ body raw, bs = body ++ 0x22 :: rest ∧ Resolves body raw ∧ out = acc.reverse ++ raw := by
  fun_induction readStringFrom acc bs with
  | case2 acc tail =>
    cases h
    exact ⟨[], [], rfl, .nil, (List.append_nil _).symm⟩
  | case12 acc h₁ h₂ h₃ h₄ high hhigh _ hh _ hslash _ hu l₁ l₂ l₃ l₄ tail low hlow hl _ _ ih =>
    obtain ⟨body, raw, rfl, hbody, hout⟩ := ih h
    cases Decidable.not_not.1 hslash
    cases Decidable.not_not.1 hu
    refine ⟨_, _, ?_, .pair hhigh hlow hh hl hbody, by simp [hout, pushChar]⟩
    rfl
  | case15 acc h₁ h₂ h₃ h₄ tail n hn hl hh _ _ ih =>
    obtain ⟨body, raw, rfl, hbody, rfl⟩ := ih h
    refine ⟨_, _, ?_, .unit hn (eq_false_of_ne_true hh) (eq_false_of_ne_true hl) hbody,
      by simp [pushChar]⟩
    rfl
  | case17 acc e tail _ b hb _ _ ih =>
    obtain ⟨body, raw, rfl, hbody, rfl⟩ := ih h
    exact ⟨_, _, rfl, .letter hb hbody, by simp⟩
  | case19 acc b tail hquote hcontrol hslash ih =>
    obtain ⟨body, raw, rfl, hbody, rfl⟩ := ih h
    exact ⟨_, _, rfl, .plain hcontrol hquote hslash hbody, by simp⟩
  | _ => cases h

namespace Resolves

/-- A byte in the middle of a character stands for itself: escapes stand for whole characters. -/
theorem exists_of_not_first {body out : Bytes} {k : UInt8} (h : Resolves body (k :: out))
    (hk : ¬ k.IsUTF8FirstByte) : ∃ tail, body = k :: tail ∧ Resolves tail out := by
  have hchar {c : Char} {more : Bytes} (hc : k :: out = String.utf8EncodeChar c ++ more) : False := by
    obtain ⟨b, bs, hb, hfirst, -⟩ := Utf8.exists_utf8EncodeChar c
    rw [hb] at hc
    cases hc
    exact hk hfirst
  generalize hraw : k :: out = raw at h
  cases h with
  | nil => cases hraw
  | plain _ _ _ h =>
    cases hraw
    exact ⟨_, rfl, h⟩
  | @letter e b bs more he h =>
    refine (@hchar (Char.ofNat b.toNat) more ?_).elim
    rw [hraw, utf8EncodeChar_of_simpleEscape? he, List.singleton_append]
  | unit => exact (hchar hraw).elim
  | pair => exact (hchar hraw).elim

theorem exists_of_forall_not_first {body more out : Bytes} (h : Resolves body (more ++ out))
    (hm : ∀ k ∈ more, ¬ k.IsUTF8FirstByte) : ∃ tail, body = more ++ tail ∧ Resolves tail out := by
  induction more generalizing body with
  | nil => exact ⟨body, rfl, h⟩
  | cons k more ih =>
    obtain ⟨hk, hm⟩ := List.forall_mem_cons.1 hm
    obtain ⟨tail, rfl, htail⟩ := h.exists_of_not_first hk
    obtain ⟨rest, rfl, hrest⟩ := ih htail hm
    exact ⟨rest, rfl, hrest⟩

/-- If the bytes of characters come out, those characters were spelled. -/
theorem spells {body : Bytes} {cs : List Char}
    (h : Resolves body (cs.flatMap String.utf8EncodeChar)) : Spells body cs := by
  induction cs generalizing body with
  | nil =>
    generalize hraw : [].flatMap String.utf8EncodeChar = raw at h
    cases h with
    | nil => exact .nil
    | plain | letter => cases hraw
    | unit | pair => exact absurd hraw.symm (by simp)
  | cons c cs ih =>
    rw [List.flatMap_cons] at h
    generalize hraw : String.utf8EncodeChar c ++ cs.flatMap String.utf8EncodeChar = raw at h
    cases h with
    | nil => exact absurd hraw (by simp)
    | @plain b bs out hcontrol hquote hslash htail =>
      obtain ⟨first, more, hc, -, hmore⟩ := Utf8.exists_utf8EncodeChar c
      rw [hc, List.cons_append] at hraw
      obtain ⟨rfl, rfl⟩ := List.cons.inj hraw
      obtain ⟨rest, rfl, hrest⟩ := htail.exists_of_forall_not_first hmore
      have hne {d : Char} (hd : String.utf8EncodeChar d = [UInt8.ofNat d.toNat])
          (hb : first ≠ UInt8.ofNat d.toNat) : c ≠ d := by
        rintro rfl
        rw [hc] at hd
        exact hb (List.cons.inj hd).1
      have hlow : 0x20 ≤ c.toNat := by
        refine Nat.le_of_not_lt fun hlt => hcontrol ?_
        rw [Utf8.utf8EncodeChar_of_lt (by omega)] at hc
        rw [← (List.cons.inj hc).1, UInt8.lt_iff_toNat_lt, UInt8.toNat_ofNat']
        show c.toNat % 256 < 0x20
        omega
      have hspells := Spells.plain hlow (hne rfl hquote) (hne rfl hslash) (ih hrest)
      rwa [hc] at hspells
    | @letter e b bs out he h =>
      change _ = [b] ++ out at hraw
      rw [← utf8EncodeChar_of_simpleEscape? he] at hraw
      obtain ⟨rfl, rfl⟩ := Utf8.utf8EncodeChar_append_inj hraw
      exact .letter he (ih h)
    | unit hn hh hl h =>
      obtain ⟨rfl, rfl⟩ := Utf8.utf8EncodeChar_append_inj hraw
      exact .unit hn hh hl (ih h)
    | pair hn hm hh hl h =>
      obtain ⟨hc, hout⟩ := Utf8.utf8EncodeChar_append_inj hraw
      rw [hc]
      exact .pair hn hm hh hl (ih (hout ▸ h))

end Resolves

/-- A string is read just if it is spelled up to a closing quote. -/
theorem readString_eq_ok_iff {bs rest : Bytes} {text : String} :
    readString bs = .ok (text, rest) ↔
      ∃ body, bs = body ++ 0x22 :: rest ∧ Spells body text.toList := by
  constructor
  · intro h
    obtain ⟨⟨raw, tail⟩, hread, h⟩ := bind_eq_ok.1 h
    simp only at h
    split at h
    · rename_i text' hdecode
      cases h
      obtain ⟨body, out, rfl, hbody, hout⟩ := resolves_of_readStringFrom hread
      rw [hout, List.reverse_nil, List.nil_append, Utf8.decode?_eq_some_iff,
        Utf8.encode_eq_flatMap] at hdecode
      subst hdecode
      exact ⟨body, rfl, hbody.spells⟩
    · cases h
  · rintro ⟨body, rfl, hbody⟩
    exact readString_of_spells hbody rest

end Json

end VaultLink
