import VaultLink.Bytes

/-!
# UTF-8

The bytes of a text, and the text of bytes. Which bytes are UTF-8 is the standard library's
notion; this module adds where bytes that are not UTF-8 go wrong, and a reading that puts a
replacement character in each such place.

* `decode?_encode`, `eq_encode_of_decode?`: a text is read back from its bytes and from no others.
-/

namespace VaultLink.Utf8

/-- The bytes of a text. -/
def encode (text : String) : Bytes := text.toByteArray.data.toList

/-- The text that the bytes spell, if they are UTF-8. -/
def decode? (bytes : Bytes) : Option String := String.fromUTF8? ⟨⟨bytes⟩⟩

theorem decode?_encode (text : String) : decode? (encode text) = some text := by
  unfold decode? encode String.fromUTF8?
  have h : (⟨⟨text.toByteArray.data.toList⟩⟩ : ByteArray) = text.toByteArray := rfl
  simp [h, text.isValidUTF8, String.fromUTF8]

theorem eq_encode_of_decode? {bytes : Bytes} {text : String} (h : decode? bytes = some text) :
    bytes = encode text := by
  unfold decode? String.fromUTF8? at h
  split at h
  · injection h with h
    subst h
    simp [encode, String.fromUTF8]
  · cases h

theorem decode?_eq_some_iff {bytes : Bytes} {text : String} :
    decode? bytes = some text ↔ bytes = encode text :=
  ⟨eq_encode_of_decode?, fun h => h ▸ decode?_encode text⟩

theorem encode_inj {s t : String} (h : encode s = encode t) : s = t :=
  Option.some.inj ((decode?_encode s).symm.trans ((congrArg decode? h).trans (decode?_encode t)))

/-- Where bytes stop being UTF-8. -/
structure Fault where
  /-- The number of bytes before the fault, all of them UTF-8. -/
  index : Nat
  /-- How many bytes cannot belong to any character; `none` if the text ends inside one. -/
  length : Option Nat
  deriving DecidableEq, Repr

/-- The fault in words. -/
def Fault.message : Fault → String
  | ⟨index, some length⟩ => s!"invalid utf-8 sequence of {length} bytes from index {index}"
  | ⟨index, none⟩ => s!"incomplete utf-8 byte sequence from index {index}"

/-- Whether a byte can stand inside a character after its second byte. -/
def isContinuation (b : UInt8) : Bool := 0x80 ≤ b && b ≤ 0xBF

/-- What may follow the first byte of a character of several bytes: the bounds of the second
byte, which leave out overlong forms and surrogates, and the number of bytes after it. -/
def follow? (b : UInt8) : Option (UInt8 × UInt8 × Nat) :=
  if b < 0xC2 then none
  else if b ≤ 0xDF then some (0x80, 0xBF, 0)
  else if b = 0xE0 then some (0xA0, 0xBF, 1)
  else if b = 0xED then some (0x80, 0x9F, 1)
  else if b ≤ 0xEF then some (0x80, 0xBF, 1)
  else if b = 0xF0 then some (0x90, 0xBF, 2)
  else if b ≤ 0xF3 then some (0x80, 0xBF, 2)
  else if b = 0xF4 then some (0x80, 0x8F, 2)
  else none

/-- The first place from `index` on where the bytes are not UTF-8. -/
def faultFrom? (index : Nat) : Bytes → Option Fault
  | [] => none
  | a :: rest =>
    if a < 0x80 then faultFrom? (index + 1) rest
    else match follow? a with
      | none => some ⟨index, some 1⟩
      | some (low, high, more) =>
        match rest with
        | [] => some ⟨index, none⟩
        | b :: rest =>
          if b < low || high < b then some ⟨index, some 1⟩
          else if more = 0 then faultFrom? (index + 2) rest
          else match rest with
            | [] => some ⟨index, none⟩
            | c :: rest =>
              if !isContinuation c then some ⟨index, some 2⟩
              else if more = 1 then faultFrom? (index + 3) rest
              else match rest with
                | [] => some ⟨index, none⟩
                | d :: rest =>
                  if !isContinuation d then some ⟨index, some 3⟩
                  else faultFrom? (index + 4) rest

/-- The first place where the bytes are not UTF-8. -/
def fault? (bytes : Bytes) : Option Fault := faultFrom? 0 bytes

/-- The text of the bytes, or where they stop being UTF-8. -/
def decode (bytes : Bytes) : Except Fault String :=
  match decode? bytes with
  | some text => .ok text
  | none => .error ((fault? bytes).getD ⟨bytes.length, none⟩)

/-- The text of at most `fuel` stretches of UTF-8, with a replacement character for what stands
between them. -/
def decodeStretches : (fuel : Nat) → Bytes → String
  | 0, _ => ""
  | fuel + 1, bytes =>
    match fault? bytes with
    | none => (decode? bytes).getD ""
    | some fault =>
      (decode? (bytes.take fault.index)).getD "" ++ "\uFFFD" ++
        match fault.length with
        | none => ""
        | some n => decodeStretches fuel (bytes.drop (fault.index + n))

/-- The text of the bytes, with a replacement character for every part that is not UTF-8. -/
def decodeLossy (bytes : Bytes) : String := decodeStretches (bytes.length + 1) bytes

end VaultLink.Utf8
