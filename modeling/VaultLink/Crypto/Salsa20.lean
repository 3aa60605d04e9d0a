import VaultLink.Bytes

/-!
# Salsa20 with long nonces

The Salsa20 permutation on sixteen words, the key derivation HSalsa20 made from it, and the
keystream of XSalsa20: a key and the first 16 bytes of a nonce give a key of their own, under which
the last 8 bytes and a block counter select the blocks. `length_keystream`: the keystream has the
length asked for.
-/

namespace VaultLink.Salsa20

/-- The sixteen words of a state, row by row. -/
structure State where
  (w0 w1 w2 w3 w4 w5 w6 w7 w8 w9 w10 w11 w12 w13 w14 w15 : UInt32)
  deriving DecidableEq

/-- Rotation to the left by fewer than 32 places. -/
def rotl (x n : UInt32) : UInt32 := (x <<< n) ||| (x >>> (32 - n))

/-- Mixes four words. -/
def quarter (a b c d : UInt32) : UInt32 × UInt32 × UInt32 × UInt32 :=
  let b := b ^^^ rotl (a + d) 7
  let c := c ^^^ rotl (b + a) 9
  let d := d ^^^ rotl (c + b) 13
  let a := a ^^^ rotl (d + c) 18
  (a, b, c, d)

/-- Mixes each column, from its diagonal word on. -/
def columns (s : State) : State :=
  let (w0, w4, w8, w12) := quarter s.w0 s.w4 s.w8 s.w12
  let (w5, w9, w13, w1) := quarter s.w5 s.w9 s.w13 s.w1
  let (w10, w14, w2, w6) := quarter s.w10 s.w14 s.w2 s.w6
  let (w15, w3, w7, w11) := quarter s.w15 s.w3 s.w7 s.w11
  ⟨w0, w1, w2, w3, w4, w5, w6, w7, w8, w9, w10, w11, w12, w13, w14, w15⟩

/-- Mixes each row, from its diagonal word on. -/
def rows (s : State) : State :=
  let (w0, w1, w2, w3) := quarter s.w0 s.w1 s.w2 s.w3
  let (w5, w6, w7, w4) := quarter s.w5 s.w6 s.w7 s.w4
  let (w10, w11, w8, w9) := quarter s.w10 s.w11 s.w8 s.w9
  let (w15, w12, w13, w14) := quarter s.w15 s.w12 s.w13 s.w14
  ⟨w0, w1, w2, w3, w4, w5, w6, w7, w8, w9, w10, w11, w12, w13, w14, w15⟩

/-- Twenty rounds: columns and rows, ten times. -/
def permute (s : State) : State := Nat.repeat (fun s => rows (columns s)) 10 s

/-- The word of the four bytes from place `4 * i` on, least significant first. -/
def word (bytes : Array UInt8) (i : Nat) : UInt32 :=
  let byte (j : Nat) : UInt32 := (bytes.getD (4 * i + j) 0).toUInt32
  byte 0 ||| (byte 1 <<< 8) ||| (byte 2 <<< 16) ||| (byte 3 <<< 24)

/-- The state of a key and the 16 bytes beside it, around the constants on the diagonal. -/
def setup (key : FixedBytes 32) (input : FixedBytes 16) : State :=
  let k := word key.bytes.toArray
  let n := word input.bytes.toArray
  ⟨0x61707865, k 0, k 1, k 2, k 3, 0x3320646e, n 0, n 1, n 2, n 3, 0x79622d32, k 4, k 5, k 6, k 7,
    0x6b206574⟩

/-- The bytes of a word, least significant first. -/
def wordBytes (w : UInt32) : Bytes :=
  [w.toUInt8, (w >>> 8).toUInt8, (w >>> 16).toUInt8, (w >>> 24).toUInt8]

@[simp] theorem length_wordBytes (w : UInt32) : (wordBytes w).length = 4 := rfl

/-- The key that a key and 16 bytes of input derive: the words of the permuted state that an
observer of the input could otherwise subtract. -/
def derive (key : FixedBytes 32) (input : FixedBytes 16) : FixedBytes 32 :=
  let s := permute (setup key input)
  ⟨wordBytes s.w0 ++ wordBytes s.w5 ++ wordBytes s.w10 ++ wordBytes s.w15
    ++ wordBytes s.w6 ++ wordBytes s.w7 ++ wordBytes s.w8 ++ wordBytes s.w9, by simp⟩

/-- A block of 64 bytes of keystream. -/
def block (key : FixedBytes 32) (input : FixedBytes 16) : Bytes :=
  let s := setup key input
  let t := permute s
  wordBytes (s.w0 + t.w0) ++ wordBytes (s.w1 + t.w1) ++ wordBytes (s.w2 + t.w2)
    ++ wordBytes (s.w3 + t.w3) ++ wordBytes (s.w4 + t.w4) ++ wordBytes (s.w5 + t.w5)
    ++ wordBytes (s.w6 + t.w6) ++ wordBytes (s.w7 + t.w7) ++ wordBytes (s.w8 + t.w8)
    ++ wordBytes (s.w9 + t.w9) ++ wordBytes (s.w10 + t.w10) ++ wordBytes (s.w11 + t.w11)
    ++ wordBytes (s.w12 + t.w12) ++ wordBytes (s.w13 + t.w13) ++ wordBytes (s.w14 + t.w14)
    ++ wordBytes (s.w15 + t.w15)

@[simp] theorem length_block (key : FixedBytes 32) (input : FixedBytes 16) :
    (block key input).length = 64 := by
  simp [block]

/-- The input of the block with a counter, for the last 8 bytes of a nonce. -/
def blockInput (nonceEnd : FixedBytes 8) (counter : Nat) : FixedBytes 16 :=
  ⟨nonceEnd.bytes ++ Bytes.ofNatLE 8 counter, by simp [nonceEnd.length_bytes]⟩

/-- The blocks of a key with counters from `counter` on. -/
def blocks (key : FixedBytes 32) (nonceEnd : FixedBytes 8) (counter count : Nat) : Bytes :=
  (List.range' counter count).flatMap fun i => block key (blockInput nonceEnd i)

theorem length_blocks (key : FixedBytes 32) (nonceEnd : FixedBytes 8) (counter count : Nat) :
    (blocks key nonceEnd counter count).length = 64 * count := by
  induction count generalizing counter with
  | zero => rfl
  | succ count ih =>
    have := ih (counter + 1)
    simp only [blocks] at this
    simp only [blocks, List.range'_succ, List.flatMap_cons, List.length_append, length_block, this]
    omega

/-- The first 16 bytes of a nonce of 24. -/
def nonceHead (nonce : FixedBytes 24) : FixedBytes 16 :=
  ⟨nonce.bytes.take 16, by simp [nonce.length_bytes]⟩

/-- The last 8 bytes of a nonce of 24. -/
def nonceTail (nonce : FixedBytes 24) : FixedBytes 8 :=
  ⟨nonce.bytes.drop 16, by simp [nonce.length_bytes]⟩

/-- The first `n` bytes of the keystream of a key and a nonce. -/
def keystream (key : FixedBytes 32) (nonce : FixedBytes 24) (n : Nat) : Bytes :=
  (blocks (derive key (nonceHead nonce)) (nonceTail nonce) 0 ((n + 63) / 64)).take n

@[simp] theorem length_keystream (key : FixedBytes 32) (nonce : FixedBytes 24) (n : Nat) :
    (keystream key nonce n).length = n := by
  simp only [keystream, List.length_take, length_blocks]
  omega

end VaultLink.Salsa20
