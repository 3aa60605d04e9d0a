import VaultLink.Proofs.Json.Writing
import VaultLink.Proofs.Steps
import VaultLink.Text.Base64

/-!
# Base64 texts are read back

The text of a byte string is ASCII and consists of whole groups of four symbols (`encode_encode`).
Reading it gives the byte string again (`decode_encode`), and no other text is read as that byte string
(`decode_eq_ok_iff`).
-/

namespace VaultLink

namespace Base64

/-- The byte of the symbol of a number. -/
def symbolByte (n : Nat) : UInt8 := (symbol n).toNat.toUInt8

/-- A number below 64 is read back from its symbol. -/
theorem symbolByte_spec {n : Nat} (h : n < 64) :
    String.utf8EncodeChar (symbol n) = [symbolByte n] ∧ value? (symbolByte n) = some n ∧
      symbolByte n ≠ pad := by
  have hall : ∀ n < 64, String.utf8EncodeChar (symbol n) = [symbolByte n] ∧
      value? (symbolByte n) = some n ∧ symbolByte n ≠ pad := by decide
  exact hall n h

theorem valueAt_symbolByte {n : Nat} (h : n < 64) (offset : Nat) :
    valueAt offset (symbolByte n) = .ok n := by
  rw [valueAt, (symbolByte_spec h).2.1]

/-- The bytes of the text of a byte string. -/
def textBytes : Bytes → Bytes
  | [] => []
  | [a] => [symbolByte (a.toNat / 4), symbolByte (a.toNat % 4 * 16), pad, pad]
  | [a, b] =>
    [symbolByte (a.toNat / 4), symbolByte (a.toNat % 4 * 16 + b.toNat / 16),
      symbolByte (b.toNat % 16 * 4), pad]
  | a :: b :: c :: rest =>
    symbolByte (a.toNat / 4) :: symbolByte (a.toNat % 4 * 16 + b.toNat / 16)
      :: symbolByte (b.toNat % 16 * 4 + c.toNat / 64) :: symbolByte (c.toNat % 64) :: textBytes rest

/-- The numbers of the symbols of three bytes are below 64. -/
theorem sextets_lt (a b c : UInt8) :
    a.toNat / 4 < 64 ∧ a.toNat % 4 * 16 < 64 ∧ a.toNat % 4 * 16 + b.toNat / 16 < 64 ∧
      b.toNat % 16 * 4 < 64 ∧ b.toNat % 16 * 4 + c.toNat / 64 < 64 ∧ c.toNat % 64 < 64 := by
  have := a.toNat_lt
  have := b.toNat_lt
  have := c.toNat_lt
  omega

theorem encode_encode (bytes : Bytes) : Utf8.encode (encode bytes) = textBytes bytes := by
  rw [Utf8.encode_eq_flatMap, encode, String.toList_ofList]
  have hsymbol {n : Nat} (h : n < 64) := (symbolByte_spec h).1
  have hpad : String.utf8EncodeChar '=' = [pad] := rfl
  induction bytes using textBytes.induct with
  | case1 => rfl
  | case2 a =>
    obtain ⟨ha, ha', -⟩ := sextets_lt a 0 0
    simp [encodeChars, textBytes, hsymbol ha, hsymbol ha', hpad]
  | case3 a b =>
    obtain ⟨ha, -, hb, hb', -⟩ := sextets_lt a b 0
    simp [encodeChars, textBytes, hsymbol ha, hsymbol hb, hsymbol hb', hpad]
  | case4 a b c rest ih =>
    obtain ⟨ha, -, hb, -, hc, hc'⟩ := sextets_lt a b c
    simp [encodeChars, textBytes, hsymbol ha, hsymbol hb, hsymbol hc, hsymbol hc', ih]

theorem length_textBytes (bytes : Bytes) : (textBytes bytes).length % 4 = 0 := by
  induction bytes using textBytes.induct with
  | case1 | case2 | case3 => simp [textBytes]
  | case4 a b c rest ih =>
    simp only [textBytes, List.length_cons]
    omega

/-- The symbols of a group, without those of the padding. -/
theorem lastSymbols_cons {n : Nat} (h : n < 64) (offset index : Nat) (group : Bytes) :
    lastSymbols offset index none (symbolByte n :: group) = do
      let symbols ← lastSymbols offset (index + 1) none group
      return (symbolByte n, n) :: symbols := by
  obtain ⟨-, hvalue, hpad⟩ := symbolByte_spec h
  rw [lastSymbols, if_neg hpad]
  simp only [valueAt, hvalue]
  rfl

theorem decodeFrom_of_length_le {group : Bytes} (h : group.length ≤ 4) (offset : Nat) :
    decodeFrom offset group = decodeLast offset group := by
  unfold decodeFrom
  split
  · simp only [List.length_cons] at h
    omega
  · rfl

/-- A byte is told by its number. -/
theorem ofNat_eq {n : Nat} {b : UInt8} (h : n = b.toNat) : UInt8.ofNat n = b := by
  rw [h, UInt8.ofNat_toNat]

/-- A group of four symbols is read back, also before others. -/
theorem decodeFrom_group (a b c : UInt8) (offset : Nat) (rest : Bytes) :
    decodeFrom offset (symbolByte (a.toNat / 4) :: symbolByte (a.toNat % 4 * 16 + b.toNat / 16)
        :: symbolByte (b.toNat % 16 * 4 + c.toNat / 64) :: symbolByte (c.toNat % 64) :: rest) =
      (decodeFrom (offset + 4) rest).map fun tail => a :: b :: c :: tail := by
  obtain ⟨ha, -, hb, -, hc, hc'⟩ := sextets_lt a b c
  have hfirst := ofNat_eq (b := a)
    (show a.toNat / 4 * 4 + (a.toNat % 4 * 16 + b.toNat / 16) / 16 = a.toNat by
      have := b.toNat_lt; omega)
  have hsecond := ofNat_eq (b := b) (show (a.toNat % 4 * 16 + b.toNat / 16) % 16 * 16 +
      (b.toNat % 16 * 4 + c.toNat / 64) / 4 = b.toNat by have := b.toNat_lt; have := c.toNat_lt; omega)
  have hthird := ofNat_eq (b := c)
    (show (b.toNat % 16 * 4 + c.toNat / 64) % 4 * 64 + c.toNat % 64 = c.toNat by
      have := c.toNat_lt; omega)
  cases rest with
  | nil =>
    have hend : lastSymbols offset 4 none [] = .ok [] := rfl
    rw [decodeFrom_of_length_le (by simp), decodeLast, lastSymbols_cons ha, lastSymbols_cons hb,
      lastSymbols_cons hc, lastSymbols_cons hc', hend]
    simp only [bind, Except.bind, pure, Except.pure, hfirst, hsecond, hthird]
    rfl
  | cons e rest =>
    rw [decodeFrom]
    simp only [valueAt_symbolByte ha, valueAt_symbolByte hb, valueAt_symbolByte hc,
      valueAt_symbolByte hc', bind, Except.bind, pure, Except.pure, hfirst, hsecond, hthird]
    cases decodeFrom (offset + 4) (e :: rest) <;> rfl

theorem decodeFrom_textBytes (offset : Nat) (bytes : Bytes) :
    decodeFrom offset (textBytes bytes) = .ok bytes := by
  induction bytes using textBytes.induct generalizing offset with
  | case1 => rfl
  | case2 a =>
    obtain ⟨ha, ha', -⟩ := sextets_lt a 0 0
    have hpads : lastSymbols offset 2 none [pad, pad] = .ok [] := rfl
    have hbyte := ofNat_eq (b := a) (show a.toNat / 4 * 4 + a.toNat % 4 * 16 / 16 = a.toNat by omega)
    rw [textBytes, decodeFrom_of_length_le (by simp), decodeLast, lastSymbols_cons ha,
      lastSymbols_cons ha', hpads]
    simp only [bind, Except.bind, pure, Except.pure, List.length_cons, List.length_nil, hbyte,
      show a.toNat % 4 * 16 % 16 = 0 by omega]
    rfl
  | case3 a b =>
    obtain ⟨ha, -, hb, hb', -⟩ := sextets_lt a b 0
    have hpad : lastSymbols offset 3 none [pad] = .ok [] := rfl
    have hfirst := ofNat_eq (b := a)
      (show a.toNat / 4 * 4 + (a.toNat % 4 * 16 + b.toNat / 16) / 16 = a.toNat by
        have := b.toNat_lt; omega)
    have hsecond := ofNat_eq (b := b) (show (a.toNat % 4 * 16 + b.toNat / 16) % 16 * 16 +
        b.toNat % 16 * 4 / 4 = b.toNat by have := b.toNat_lt; omega)
    rw [textBytes, decodeFrom_of_length_le (by simp), decodeLast, lastSymbols_cons ha,
      lastSymbols_cons hb, lastSymbols_cons hb', hpad]
    simp only [bind, Except.bind, pure, Except.pure, List.length_cons, List.length_nil, hfirst,
      hsecond, show b.toNat % 16 * 4 % 4 = 0 by omega]
    rfl
  | case4 a b c rest ih =>
    rw [textBytes, decodeFrom_group, ih]
    rfl

theorem decode_encode (bytes : Bytes) : decode (encode bytes) = .ok bytes := by
  have hlen := length_textBytes bytes
  rw [decode, encode_encode, decodeBytes]
  rcases hlast : (textBytes bytes).getLast? with _ | last
  · have hnil := List.getLast?_eq_none_iff.1 hlast
    rw [← decodeFrom_textBytes 0 bytes, hnil]
    rfl
  · simp only
    rw [if_neg (by omega), decodeFrom_textBytes]

/-! ## Nothing else is read -/

/-- The bytes of the symbols, range by range. -/
theorem symbolByte_eq : (∀ n < 26, symbolByte n = UInt8.ofNat (n + 65)) ∧
    (∀ n < 26, symbolByte (n + 26) = UInt8.ofNat (n + 97)) ∧
    (∀ n < 10, symbolByte (n + 52) = UInt8.ofNat (n + 48)) := by decide

theorem symbolByte_of_value? {b : UInt8} {n : Nat} (h : value? b = some n) :
    n < 64 ∧ b = symbolByte n := by
  obtain ⟨hupper, hlower, hdigit⟩ := symbolByte_eq
  unfold value? at h
  simp only at h
  split at h
  · cases h
    refine ⟨by omega, ?_⟩
    rw [hupper _ (by omega), Nat.sub_add_cancel (by omega), UInt8.ofNat_toNat]
  · split at h
    · cases h
      refine ⟨by omega, ?_⟩
      rw [show b.toNat - 71 = b.toNat - 97 + 26 by omega, hlower _ (by omega),
        Nat.sub_add_cancel (by omega), UInt8.ofNat_toNat]
    · split at h
      · cases h
        refine ⟨by omega, ?_⟩
        rw [show b.toNat + 4 = b.toNat - 48 + 52 by omega, hdigit _ (by omega),
          Nat.sub_add_cancel (by omega), UInt8.ofNat_toNat]
      · repeat' split at h
        all_goals cases h
        · exact ⟨by decide, UInt8.toNat_inj.1 (by assumption)⟩
        · exact ⟨by decide, UInt8.toNat_inj.1 (by assumption)⟩

theorem eq_of_valueAt {offset n : Nat} {b : UInt8} (h : valueAt offset b = .ok n) :
    n < 64 ∧ b = symbolByte n := by
  unfold valueAt at h
  split at h
  · cases h
    exact symbolByte_of_value? ‹_›
  · cases h

/-- The numbers of four symbols, from the bytes that they make. -/
theorem sextets_eq {x y z w : Nat} (hx : x < 64) (hy : y < 64) (hz : z < 64) (hw : w < 64) :
    let a := UInt8.ofNat (x * 4 + y / 16)
    let b := UInt8.ofNat (y % 16 * 16 + z / 4)
    let c := UInt8.ofNat (z % 4 * 64 + w)
    a.toNat / 4 = x ∧ a.toNat % 4 * 16 + b.toNat / 16 = y ∧ b.toNat % 16 * 4 + c.toNat / 64 = z ∧
      c.toNat % 64 = w := by
  simp only [UInt8.toNat_ofNat']
  omega

/-- Nothing but padding follows padding. -/
theorem eq_pad_of_lastSymbols {offset index first : Nat} {b : UInt8} {rest : Bytes}
    {symbols : List (UInt8 × Nat)} (h : lastSymbols offset index (some first) (b :: rest) = .ok symbols) :
    b = pad ∧ lastSymbols offset (index + 1) (some first) rest = .ok symbols := by
  rw [lastSymbols] at h
  split at h
  · split at h
    · cases h
    · exact ⟨‹_›, h⟩
  · cases h

/-- A symbol, or padding after two symbols at least. -/
theorem lastSymbols_eq_ok {offset index : Nat} {b : UInt8} {rest : Bytes}
    {symbols : List (UInt8 × Nat)} (h : lastSymbols offset index none (b :: rest) = .ok symbols) :
    (2 ≤ index ∧ b = pad ∧ lastSymbols offset (index + 1) (some (offset + index)) rest = .ok symbols) ∨
      ∃ n more, n < 64 ∧ b = symbolByte n ∧ lastSymbols offset (index + 1) none rest = .ok more ∧
        symbols = (b, n) :: more := by
  rw [lastSymbols] at h
  split at h
  · left
    split at h
    · cases h
    · exact ⟨by omega, ‹_›, h⟩
  · right
    obtain ⟨n, hn, h⟩ := bind_eq_ok.1 h
    obtain ⟨more, hm, h⟩ := bind_eq_ok.1 h
    obtain ⟨hlt, hb⟩ := eq_of_valueAt hn
    cases h
    exact ⟨n, more, hlt, hb, hm, rfl⟩

/-- A last group is the text of what it is read as. -/
theorem eq_textBytes_of_decodeLast {offset : Nat} {group bytes : Bytes} (hl : group.length ≤ 4)
    (h : decodeLast offset group = .ok bytes) : group = textBytes bytes := by
  obtain ⟨symbols, h₀, h⟩ := bind_eq_ok.1 h
  rcases group with _ | ⟨a, group⟩
  · cases h₀
    cases h
    rfl
  obtain ⟨hlate, -⟩ | ⟨x, _, hx, rfl, h₁, rfl⟩ := lastSymbols_eq_ok h₀
  · omega
  rcases group with _ | ⟨b, group⟩
  · cases h₁
    cases h
  obtain ⟨hlate, -⟩ | ⟨y, _, hy, rfl, h₂, rfl⟩ := lastSymbols_eq_ok h₁
  · omega
  rcases group with _ | ⟨c, group⟩
  · cases h₂
    cases h
  have hnil {d : UInt8} (hl : (symbolByte x :: symbolByte y :: c :: d :: group.tail).length ≤ 4) :
      group.tail = [] := List.eq_nil_of_length_eq_zero (by simp only [List.length_cons] at hl; omega)
  obtain ⟨-, rfl, h₃⟩ | ⟨z, _, hz, rfl, h₃, rfl⟩ := lastSymbols_eq_ok h₂
  · rcases group with _ | ⟨d, group⟩
    · cases h₃
      cases h
    obtain rfl : group = [] := hnil (d := d) hl
    obtain ⟨rfl, h₄⟩ := eq_pad_of_lastSymbols h₃
    cases h₄
    simp only [List.length_cons, List.length_nil, ne_eq, not_true_eq_false, if_false] at h
    split at h
    · cases h
    · rename_i hbits
      cases h
      have ha : (UInt8.ofNat (x * 4 + y / 16)).toNat / 4 = x ∧
          (UInt8.ofNat (x * 4 + y / 16)).toNat % 4 * 16 = y := by
        simp only [UInt8.toNat_ofNat']
        omega
      rw [textBytes, ha.1, ha.2]
  · rcases group with _ | ⟨d, group⟩
    · cases h₃
      cases h
    obtain rfl : group = [] := hnil (d := d) hl
    obtain ⟨-, rfl, h₄⟩ | ⟨w, _, hw, rfl, h₄, rfl⟩ := lastSymbols_eq_ok h₃
    · cases h₄
      simp only [List.length_cons, List.length_nil, ne_eq, not_true_eq_false, if_false] at h
      split at h
      · cases h
      · rename_i hbits
        cases h
        have ha : (UInt8.ofNat (x * 4 + y / 16)).toNat / 4 = x ∧
            (UInt8.ofNat (x * 4 + y / 16)).toNat % 4 * 16 +
              (UInt8.ofNat (y % 16 * 16 + z / 4)).toNat / 16 = y ∧
            (UInt8.ofNat (y % 16 * 16 + z / 4)).toNat % 16 * 4 = z := by
          simp only [UInt8.toNat_ofNat']
          omega
        rw [textBytes, ha.1, ha.2.1, ha.2.2]
    · cases h₄
      cases h
      obtain ⟨ha, hb, hc, hd⟩ := sextets_eq hx hy hz hw
      rw [textBytes, ha, hb, hc, hd]
      rfl

theorem eq_textBytes_of_decodeFrom {offset : Nat} {text bytes : Bytes}
    (h : decodeFrom offset text = .ok bytes) : text = textBytes bytes := by
  induction offset, text using decodeFrom.induct generalizing bytes with
  | case1 offset a b c d e rest ih =>
    rw [decodeFrom] at h
    obtain ⟨x, hx, h⟩ := bind_eq_ok.1 h
    obtain ⟨y, hy, h⟩ := bind_eq_ok.1 h
    obtain ⟨z, hz, h⟩ := bind_eq_ok.1 h
    obtain ⟨w, hw, h⟩ := bind_eq_ok.1 h
    obtain ⟨tail, ht, hbytes⟩ := bind_eq_ok.1 h
    obtain ⟨hx', rfl⟩ := eq_of_valueAt hx
    obtain ⟨hy', rfl⟩ := eq_of_valueAt hy
    obtain ⟨hz', rfl⟩ := eq_of_valueAt hz
    obtain ⟨hw', rfl⟩ := eq_of_valueAt hw
    obtain ⟨h₁, h₂, h₃, h₄⟩ := sextets_eq hx' hy' hz' hw'
    cases hbytes
    rw [textBytes, h₁, h₂, h₃, h₄, ← ih ht]
  | case2 offset group hshort =>
    have hl : group.length ≤ 4 := by
      match group with
      | [] | [_] | [_, _] | [_, _, _] | [_, _, _, _] => simp
      | a :: b :: c :: d :: e :: rest => exact absurd rfl (hshort a b c d e rest)
    rw [decodeFrom_of_length_le hl] at h
    exact eq_textBytes_of_decodeLast hl h

/-- A text is read as a byte string just if it is the text of that byte string. -/
theorem decode_eq_ok_iff {text : String} {bytes : Bytes} :
    decode text = .ok bytes ↔ text = encode bytes := by
  refine ⟨fun h => ?_, fun h => h ▸ decode_encode bytes⟩
  have htext : Utf8.encode text = textBytes bytes := by
    unfold decode decodeBytes at h
    split at h
    · rename_i hlast
      cases h
      exact List.getLast?_eq_none_iff.1 hlast
    · split at h
      · cases h
      · exact eq_textBytes_of_decodeFrom h
  rw [← encode_encode] at htext
  have := congrArg Utf8.decode? htext
  rw [Utf8.decode?_encode, Utf8.decode?_encode] at this
  exact Option.some.inj this

end Base64

end VaultLink
