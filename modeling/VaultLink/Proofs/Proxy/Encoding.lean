import VaultLink.Proofs.Proxy.Answering
import VaultLink.Proofs.Wire.Envelopes

/-!
# What is sent can be told apart

A message to the proxy has the form of a message from it, and read as one it keeps what it says: the action,
the nonce, and the key or the box, whatever the client calls itself (`Outbound.decode_of_encode`).
-/

namespace VaultLink.Outbound

open InboundFields (ofMembers)

theorem nodup_members (message : Outbound) : (message.members.map (·.1)).Nodup := by
  cases message with
  | keyExchange => simp [members]
  | encrypted action box nonce clientId triggerUnlock => cases triggerUnlock <;> simp [members]

/-- An encoded message is a text, and its known members are what is read of it. -/
theorem exists_text_of_encode {message : Outbound} {bytes : Bytes} (h : message.encode = .ok bytes) :
    ∃ text, bytes = Utf8.encode text ∧ Inbound.decode text = Inbound.ofFields (ofMembers message.members) := by
  have hb := eq_render_of_encode h
  obtain ⟨text, ht⟩ := Json.isText_render message.areTexts_members
  exact ⟨text, hb.trans ht,
    Inbound.decode_of_texts ht.symm message.areTexts_members message.nodup_members rfl⟩

theorem sendable_eq_true_iff {action : Action} :
    sendable action = true ↔ ¬ (action = .changePublicKeys ∨ action.isSignal = true) := by
  simp [sendable]

/-- What is encoded is decoded to the key or the box of the message and to its nonce. Only boxes about the
key exchange or a signal cannot be encoded. -/
theorem decode_of_encode :
    (∀ publicKey nonce clientId, ∃ text,
      (keyExchange publicKey nonce clientId).encode = .ok (Utf8.encode text) ∧
        Inbound.decode text = .ok (.keyExchange ⟨false, some publicKey.bytes, none, nonce⟩)) ∧
    ∀ action box nonce clientId triggerUnlock,
      if action = .changePublicKeys ∨ action.isSignal = true then
        (encrypted action box nonce clientId triggerUnlock).encode =
          .error (.protocol (.unsendable action))
      else ∃ text,
        (encrypted action box nonce clientId triggerUnlock).encode = .ok (Utf8.encode text) ∧
          Inbound.decode text = .ok (.encrypted ⟨action, nonce, box⟩) := by
  constructor
  · intro publicKey nonce clientId
    obtain ⟨text, ht, hd⟩ := @exists_text_of_encode (.keyExchange publicKey nonce clientId) _ rfl
    exact ⟨text, congrArg _ ht, hd.trans (Inbound.ofFields_keys publicKey nonce none)⟩
  · intro action box nonce clientId triggerUnlock
    split
    · rename_i h
      exact if_neg fun hs => sendable_eq_true_iff.1 hs h
    · rename_i h
      have hs := sendable_eq_true_iff.2 h
      have hencode : (encrypted action box nonce clientId triggerUnlock).encode = .ok _ := if_pos hs
      obtain ⟨text, ht, hd⟩ := exists_text_of_encode hencode
      have hfields : ofMembers (encrypted action box nonce clientId triggerUnlock).members =
          { action := some action.wireName, message := some (Base64.encode box),
            nonce := some nonce.toBase64 } := by
        cases triggerUnlock <;> rfl
      rw [hfields] at hd
      exact ⟨text, hencode.trans (congrArg _ ht),
        hd.trans (@Inbound.ofFields_boxed ⟨action, nonce, box⟩ hs)⟩

end VaultLink.Outbound
