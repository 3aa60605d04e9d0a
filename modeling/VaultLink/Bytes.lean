/-!
# Byte strings

A byte string is a list of bytes. This module holds its two readings as a number and as
hexadecimal text, and the byte strings of a fixed length:

* `Bytes.toNatLE`, `Bytes.ofNatLE`: a byte string as base-256 digits, least significant first;
  `toNatLE_ofNatLE` and `ofNatLE_toNatLE` say that each undoes the other;
* `Bytes.toHex`, `Bytes.ofHex?`: two lower-case hexadecimal digits a byte;
* `FixedBytes n`: byte strings of length `n`.
-/

namespace VaultLink

/-- A byte string. -/
abbrev Bytes := List UInt8

namespace Bytes

/-- The number whose base-256 digits are the bytes, least significant first. -/
def toNatLE : Bytes → Nat
  | [] => 0
  | b :: bs => b.toNat + 256 * toNatLE bs

/-- The lowest `len` base-256 digits of `n`, least significant first. -/
def ofNatLE : (len n : Nat) → Bytes
  | 0, _ => []
  | len + 1, n => UInt8.ofNat n :: ofNatLE len (n / 256)

@[simp] theorem length_ofNatLE (len n : Nat) : (ofNatLE len n).length = len := by
  induction len generalizing n with
  | zero => rfl
  | succ len ih => simp [ofNatLE, ih]

theorem toNatLE_lt (bs : Bytes) : toNatLE bs < Nat.pow 256 bs.length := by
  induction bs with
  | nil => simp [toNatLE]
  | cons b bs ih =>
    have hb := b.toNat_lt
    show b.toNat + 256 * toNatLE bs < Nat.pow 256 bs.length * 256
    omega

theorem toNatLE_ofNatLE (len n : Nat) : toNatLE (ofNatLE len n) = n % Nat.pow 256 len := by
  induction len generalizing n with
  | zero => simp [ofNatLE, toNatLE, Nat.mod_one]
  | succ len ih =>
    simp only [ofNatLE, toNatLE, ih, UInt8.toNat_ofNat']
    have hp : Nat.pow 256 (len + 1) = 256 * Nat.pow 256 len := Nat.mul_comm _ _
    rw [hp, Nat.mod_mul]

theorem ofNatLE_toNatLE (bs : Bytes) : ofNatLE bs.length (toNatLE bs) = bs := by
  induction bs with
  | nil => rfl
  | cons b bs ih =>
    have hb := b.toNat_lt
    simp only [List.length_cons, ofNatLE, toNatLE, List.cons.injEq]
    constructor
    · apply UInt8.toNat_inj.1
      simp only [UInt8.toNat_ofNat']
      omega
    · rw [show (b.toNat + 256 * toNatLE bs) / 256 = toNatLE bs by omega, ih]

/-- Byte strings of one length that spell the same number are equal. -/
theorem toNatLE_inj {as bs : Bytes} (hl : as.length = bs.length) (h : toNatLE as = toNatLE bs) :
    as = bs := by
  rw [← ofNatLE_toNatLE as, ← ofNatLE_toNatLE bs, hl, h]

/-- The bytes of two strings combined place by place by exclusive or; the longer one is cut. -/
def xor (as bs : Bytes) : Bytes := List.zipWith (· ^^^ ·) as bs

/-- Whether two byte strings agree, looking at every byte whatever the first ones say. -/
def constantTimeEq (as bs : Bytes) : Bool :=
  as.length = bs.length && (List.zipWith (· ^^^ ·) as bs).foldl (· ||| ·) 0 = 0

theorem foldl_or_eq_zero_iff (acc : UInt8) (bs : Bytes) :
    bs.foldl (· ||| ·) acc = 0 ↔ acc = 0 ∧ ∀ b ∈ bs, b = 0 := by
  induction bs generalizing acc with
  | nil => simp
  | cons b bs ih => simp [ih, UInt8.or_eq_zero_iff, and_assoc]

theorem constantTimeEq_iff {as bs : Bytes} : constantTimeEq as bs = true ↔ as = bs := by
  simp only [constantTimeEq, Bool.and_eq_true, decide_eq_true_eq, foldl_or_eq_zero_iff, true_and]
  induction as generalizing bs with
  | nil => cases bs <;> simp
  | cons a as ih =>
    cases bs with
    | nil => simp
    | cons b bs =>
      have := @ih bs
      simp only [List.length_cons, Nat.add_right_cancel_iff, List.zipWith_cons_cons,
        List.forall_mem_cons, UInt8.xor_eq_zero_iff, List.cons.injEq]
      rw [← this]
      constructor
      · rintro ⟨hl, hab, hz⟩; exact ⟨hab, hl, hz⟩
      · rintro ⟨hab, hl, hz⟩; exact ⟨hl, hab, hz⟩

/-- The lower-case hexadecimal digit of a number below 16. -/
def hexDigit (n : Nat) : Char := Nat.digitChar n

/-- Two lower-case hexadecimal digits a byte, the high half first. -/
def toHex (bs : Bytes) : String :=
  String.ofList (bs.flatMap fun b => [hexDigit (b.toNat / 16), hexDigit (b.toNat % 16)])

/-- The value of a hexadecimal digit of either case. -/
def hexValue? (c : Char) : Option Nat :=
  if '0' ≤ c ∧ c ≤ '9' then some (c.toNat - '0'.toNat)
  else if 'a' ≤ c ∧ c ≤ 'f' then some (c.toNat - 'a'.toNat + 10)
  else if 'A' ≤ c ∧ c ≤ 'F' then some (c.toNat - 'A'.toNat + 10)
  else none

/-- Reads pairs of hexadecimal digits; a digit without a partner or another character refuses. -/
def ofHexChars? : List Char → Option Bytes
  | [] => some []
  | [_] => none
  | h :: l :: rest => do
    let h ← hexValue? h
    let l ← hexValue? l
    let bytes ← ofHexChars? rest
    return UInt8.ofNat (16 * h + l) :: bytes

/-- The byte string that a text of hexadecimal digit pairs spells. -/
def ofHex? (text : String) : Option Bytes := ofHexChars? text.toList

end Bytes

/-- A byte string of length `n`. -/
structure FixedBytes (n : Nat) where
  /-- The bytes. -/
  bytes : Bytes
  length_bytes : bytes.length = n
  deriving DecidableEq

namespace FixedBytes

variable {n : Nat}

@[ext] theorem ext {a b : FixedBytes n} (h : a.bytes = b.bytes) : a = b := by
  cases a; cases b; cases h; rfl

/-- The byte string, if it has the length asked for. -/
def ofBytes? (n : Nat) (bs : Bytes) : Option (FixedBytes n) :=
  if h : bs.length = n then some ⟨bs, h⟩ else none

/-- `n` bytes of one value. -/
def replicate (n : Nat) (b : UInt8) : FixedBytes n := ⟨List.replicate n b, List.length_replicate⟩

/-- The lowest `n` base-256 digits of a number, least significant first. -/
def ofNatLE (n value : Nat) : FixedBytes n := ⟨Bytes.ofNatLE n value, Bytes.length_ofNatLE n value⟩

/-- The number whose base-256 digits are the bytes, least significant first. -/
def toNatLE (a : FixedBytes n) : Nat := Bytes.toNatLE a.bytes

theorem toNatLE_lt (a : FixedBytes n) : a.toNatLE < Nat.pow 256 n := by
  have h := Bytes.toNatLE_lt a.bytes
  rwa [a.length_bytes] at h

theorem toNatLE_inj {a b : FixedBytes n} (h : a.toNatLE = b.toNatLE) : a = b :=
  ext (Bytes.toNatLE_inj (a.length_bytes.trans b.length_bytes.symm) h)

theorem ofBytes?_eq_some_iff {bs : Bytes} {a : FixedBytes n} :
    ofBytes? n bs = some a ↔ bs = a.bytes := by
  unfold ofBytes?
  split
  · rename_i h
    constructor
    · intro e; cases e; rfl
    · intro e; subst e; rfl
  · rename_i h
    constructor
    · intro e; cases e
    · intro e; exact absurd (e ▸ a.length_bytes) h

end FixedBytes

end VaultLink
