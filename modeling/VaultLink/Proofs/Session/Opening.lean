import VaultLink.Proofs.Session.Reservation

/-!
# Opening replies

A session opens a reply only under the nonce that it expects and only if the box verifies
(`openReply_eq_ok_iff`). A reply that does not open is never blamed on the client's own
cryptography (`openReply_ne_crypto`).
-/

namespace VaultLink

theorem Box.eq_authentication_of_decrypt {own : KeyPair} {peer : PublicKey} {nonce : Nonce}
    {box : Bytes} {fault : CryptoFault} (h : Box.decrypt own peer nonce box = .error fault) :
    fault = .authentication := by
  unfold Box.decrypt at h
  split at h <;> cases h
  rfl

namespace Session

/-- The members of a decrypted payload. -/
def membersOf (plaintext : Bytes) : Except Error Json.Members :=
  match Json.parse plaintext with
  | .error fault => .error (.ofFault fault)
  | .ok (.object members) => .ok members
  | .ok _ => .error (.malformedMessage .notAnObject)

theorem membersOf_eq_ok_iff {plaintext : Bytes} {members : Json.Members} :
    membersOf plaintext = .ok members ↔ Json.parse plaintext = .ok (.object members) := by
  unfold membersOf
  split <;> simp_all

theorem membersOf_ne_crypto (plaintext : Bytes) (fault : CryptoFault) :
    membersOf plaintext ≠ .error (.crypto fault) := by
  unfold membersOf
  split <;> simp [Error.ofFault, Error.ofMisfit]

theorem openReply_of_requirePeer {s : Session} {e : Error} (h : s.requirePeer = .error e)
    (reply : BoxedReply) (expected : Nonce) : s.openReply reply expected = .error e := by
  simp only [openReply, h]
  rfl

/-- Opening, step by step, in an established session. -/
theorem openReply_of_established {s : Session} {peer : PublicKey} {version : Option String}
    (h : s.handshake = .established peer version) (reply : BoxedReply) (expected : Nonce) :
    s.openReply reply expected =
      if reply.nonce = expected then
        match Box.decrypt s.keys peer reply.nonce reply.box with
        | .ok plaintext => membersOf plaintext
        | .error fault => .error (.ofCrypto fault)
      else .error (.protocol (.strayNonce reply.action)) := by
  simp only [openReply, requirePeer, h, bind, Except.bind]
  by_cases hn : reply.nonce = expected
  · simp only [hn, ne_eq, not_true_eq_false, if_false, if_true]
    rcases Box.decrypt s.keys peer expected reply.box with fault | plaintext
    · rfl
    · unfold membersOf
      rcases hj : Json.parse plaintext with fault | value
      · simp only [pure, Except.pure, hj]; rfl
      · cases value <;> simp only [pure, Except.pure, hj] <;> rfl
  · simp only [hn, ne_eq, not_false_eq_true, if_true, if_false]
    rfl

/-- What a reply must be for a session to open it: under the expected nonce, in a box from the peer
that verifies, with an object inside. -/
theorem openReply_eq_ok_iff {s : Session} {reply : BoxedReply} {expected : Nonce}
    {members : Json.Members} :
    s.openReply reply expected = .ok members ↔
      ∃ peer version plaintext, s.handshake = .established peer version ∧ reply.nonce = expected ∧
        Box.decrypt s.keys peer reply.nonce reply.box = .ok plaintext ∧
        Json.parse plaintext = .ok (.object members) := by
  constructor
  · intro h
    rcases hp : s.requirePeer with e | peer
    · rw [openReply_of_requirePeer hp] at h
      cases h
    obtain ⟨version, hs⟩ := requirePeer_eq_ok hp
    rw [openReply_of_established hs] at h
    split at h
    · rename_i hn
      split at h
      · rename_i plaintext hd
        exact ⟨peer, version, plaintext, hs, hn, hd, membersOf_eq_ok_iff.1 h⟩
      · cases h
    · cases h
  · rintro ⟨peer, version, plaintext, hs, hn, hd, hj⟩
    rw [openReply_of_established hs, if_pos hn, hd]
    exact membersOf_eq_ok_iff.2 hj

/-- A reply that does not open is the sender's doing. -/
theorem openReply_ne_crypto (s : Session) (reply : BoxedReply) (expected : Nonce)
    (fault : CryptoFault) : s.openReply reply expected ≠ .error (.crypto fault) := by
  intro h
  rcases hp : s.requirePeer with e | peer
  · rw [openReply_of_requirePeer hp] at h
    cases h
    exact requirePeer_ne_crypto s fault hp
  obtain ⟨version, hs⟩ := requirePeer_eq_ok hp
  rw [openReply_of_established hs] at h
  split at h
  · split at h
    · exact membersOf_ne_crypto _ _ h
    · rename_i hd
      rw [Box.eq_authentication_of_decrypt hd] at h
      cases h
  · cases h

end Session

end VaultLink
