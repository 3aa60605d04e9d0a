import VaultLink.Crypto.Box

/-!
# What is sealed opens

A box opens under the key and the nonce under which it was sealed, to the message that was put into it
(`decrypt_encrypt`). Nothing else opens (`decrypt_iff_sealed`): opening checks the tag of the bytes
as they came, and a mask is undone by the same mask, so whatever opens is a box that sealing makes.
-/

namespace VaultLink

/-- What was masked twice with the same bytes is what it was. -/
theorem Bytes.xor_xor {as ks : Bytes} (h : as.length ≤ ks.length) : (as.xor ks).xor ks = as := by
  induction as generalizing ks with
  | nil => rfl
  | cons a as ih =>
    cases ks with
    | nil => cases h
    | cons k ks =>
      show ((a ^^^ k) ^^^ k) :: Bytes.xor (Bytes.xor as ks) ks = a :: as
      rw [ih (Nat.le_of_succ_le_succ h), UInt8.xor_assoc, UInt8.xor_self, UInt8.xor_zero]

namespace Box

theorem length_mask (key : FixedBytes 32) (nonce : Nonce) (message : Bytes) :
    (mask key nonce message).length = message.length := by
  simp [mask, Bytes.xor]

theorem mask_mask (key : FixedBytes 32) (nonce : Nonce) (message : Bytes) :
    mask key nonce (mask key nonce message) = message := by
  rw [mask, length_mask, mask]
  exact Bytes.xor_xor (by simp)

theorem take_sealWith (key : FixedBytes 32) (nonce : Nonce) (message : Bytes) :
    (sealWith key nonce message).take tagSize =
      (Poly1305.tag (tagKey key nonce) (mask key nonce message)).bytes :=
  List.take_left' (Poly1305.tag (tagKey key nonce) (mask key nonce message)).length_bytes

theorem drop_sealWith (key : FixedBytes 32) (nonce : Nonce) (message : Bytes) :
    (sealWith key nonce message).drop tagSize = mask key nonce message :=
  List.drop_left' (Poly1305.tag (tagKey key nonce) (mask key nonce message)).length_bytes

theorem length_sealWith (key : FixedBytes 32) (nonce : Nonce) (message : Bytes) :
    (sealWith key nonce message).length = tagSize + message.length := by
  have htag := (Poly1305.tag (tagKey key nonce) (mask key nonce message)).length_bytes
  simp [sealWith, htag, tagSize, length_mask]

theorem openWith_sealWith (key : FixedBytes 32) (nonce : Nonce) (message : Bytes) :
    openWith key nonce (sealWith key nonce message) = some message := by
  have hlen : ¬ (sealWith key nonce message).length < tagSize := by
    simp [length_sealWith]
  rw [openWith, if_neg hlen]
  simp only [drop_sealWith, take_sealWith, if_true, mask_mask]

/-- A box that opens is its tag and its masked body, and the mask is undone by the same mask: it is
the box that sealing makes. -/
theorem sealWith_of_openWith {key : FixedBytes 32} {nonce : Nonce} {box message : Bytes}
    (h : openWith key nonce box = some message) : box = sealWith key nonce message := by
  rw [openWith] at h
  split at h
  next => cases h
  next =>
    simp only at h
    split at h
    next htag =>
      injection h with h
      rw [← h, sealWith, mask_mask, htag, List.take_append_drop]
    next => cases h

theorem openWith_eq_some_iff {key : FixedBytes 32} {nonce : Nonce} {box message : Bytes} :
    openWith key nonce box = some message ↔ box = sealWith key nonce message := by
  constructor
  · exact sealWith_of_openWith
  · intro h
    rw [h, openWith_sealWith]

theorem decrypt_encrypt (own : KeyPair) (peer : PublicKey) (nonce : Nonce) (message : Bytes) :
    decrypt own peer nonce (encrypt own peer nonce message) = .ok message := by
  rw [decrypt, encrypt, openWith_sealWith]

theorem decrypt_eq_ok_iff {own : KeyPair} {peer : PublicKey} {nonce : Nonce}
    {box message : Bytes} :
    decrypt own peer nonce box = .ok message ↔ box = encrypt own peer nonce message := by
  rw [encrypt, ← openWith_eq_some_iff, decrypt]
  cases openWith (key own peer) nonce box <;> simp

/-- A box that no message makes is refused as not authentic, which is all that is told of it. -/
theorem decrypt_eq_authentication {own : KeyPair} {peer : PublicKey} {nonce : Nonce} {box : Bytes}
    (h : ∀ message, box ≠ encrypt own peer nonce message) :
    decrypt own peer nonce box = .error .authentication := by
  rw [decrypt]
  cases hopen : openWith (key own peer) nonce box with
  | none => rfl
  | some message => exact absurd (sealWith_of_openWith hopen) (h message)

theorem ne_encrypt_of_length_lt {box : Bytes} (h : box.length < tagSize) (own : KeyPair)
    (peer : PublicKey) (nonce : Nonce) (message : Bytes) : box ≠ encrypt own peer nonce message := by
  intro heq
  rw [heq, encrypt, length_sealWith] at h
  exact Nat.not_lt.mpr (Nat.le_add_right _ _) h

/-- The body of a box determines the message, and the message determines the tag: no other tag
goes with a body. -/
theorem ne_encrypt_of_tag {own : KeyPair} {peer : PublicKey} {nonce : Nonce} {tag message : Bytes}
    (hlen : tag.length = tagSize) (htag : tag ≠ (encrypt own peer nonce message).take tagSize)
    (other : Bytes) :
    tag ++ (encrypt own peer nonce message).drop tagSize ≠ encrypt own peer nonce other := by
  intro heq
  have hbody : mask (key own peer) nonce message = mask (key own peer) nonce other := by
    have := congrArg (List.drop tagSize) heq
    rwa [List.drop_left' hlen, encrypt, encrypt, drop_sealWith, drop_sealWith] at this
  have hsame : message = other := by
    rw [← mask_mask (key own peer) nonce message, hbody, mask_mask]
  have htake := congrArg (List.take tagSize) heq
  rw [List.take_left' hlen, ← hsame] at htake
  exact htag htake

/-- A box opens to a message exactly if it is what sealing that message under the same nonce and
keys makes. Every other string of bytes is refused as not authentic: so is whatever is shorter than
a tag, and so is a box of which nothing but the tag was changed. -/
theorem decrypt_iff_sealed (own : KeyPair) (peer : PublicKey) (nonce : Nonce) (box : Bytes) :
    (∀ message, decrypt own peer nonce box = .ok message ↔
      box = encrypt own peer nonce message) ∧
    ((∀ message, box ≠ encrypt own peer nonce message) →
      decrypt own peer nonce box = .error .authentication) ∧
    (box.length < tagSize → decrypt own peer nonce box = .error .authentication) ∧
    ∀ tag message, tag.length = tagSize → tag ≠ (encrypt own peer nonce message).take tagSize →
      box = tag ++ (encrypt own peer nonce message).drop tagSize →
      decrypt own peer nonce box = .error .authentication := by
  refine ⟨fun message => decrypt_eq_ok_iff, decrypt_eq_authentication, ?_, ?_⟩
  · intro hshort
    exact decrypt_eq_authentication (ne_encrypt_of_length_lt hshort own peer nonce)
  · rintro tag message hlen htag rfl
    exact decrypt_eq_authentication (ne_encrypt_of_tag hlen htag)

/-- A box of three bytes opens, and no longer does once its tag is another one; nothing at all and a
single byte are no boxes. -/
theorem decrypt_sealed_and_forged :
    let own : KeyPair := .ofSecret (.ofNatLE 32 1)
    let peer := (KeyPair.ofSecret (.ofNatLE 32 2)).publicKey
    let nonce : Nonce := .ofNatLE 24 5
    let box := encrypt own peer nonce [1, 2, 3]
    let forged := (box.take tagSize).map (· + 1) ++ box.drop tagSize
    decrypt own peer nonce box = .ok [1, 2, 3] ∧
    decrypt own peer nonce [] = .error .authentication ∧
    decrypt own peer nonce [7] = .error .authentication ∧
    decrypt own peer nonce forged = .error .authentication := by
  intro own peer nonce box forged
  have hlen : (box.take tagSize).length = tagSize := by
    simp [box, encrypt, length_sealWith]
  have hne : (box.take tagSize).map (· + 1) ≠ box.take tagSize := by
    obtain ⟨b, rest, htake⟩ : ∃ b rest, box.take tagSize = b :: rest :=
      List.exists_cons_of_length_eq_add_one hlen
    rw [htake]
    simp
  have hshort : ([7] : Bytes).length < tagSize := by decide
  exact ⟨((decrypt_iff_sealed own peer nonce box).1 [1, 2, 3]).mpr rfl,
    (decrypt_iff_sealed own peer nonce []).2.2.1 (by decide),
    (decrypt_iff_sealed own peer nonce [7]).2.1 (ne_encrypt_of_length_lt hshort own peer nonce),
    (decrypt_iff_sealed own peer nonce forged).2.2.2 _ [1, 2, 3] (by simpa using hlen) hne rfl⟩

end Box

end VaultLink
