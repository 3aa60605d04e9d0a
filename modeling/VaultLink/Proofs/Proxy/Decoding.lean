import VaultLink.Proxy.Inbound

/-!
# What decoding can fail with

A text that is no message of the proxy is malformed: decoding fails with nothing else
(`Inbound.decode_eq_error`).
-/

namespace VaultLink

/-- A result fails with a malformed message if it fails. -/
def FailsMalformed {α : Type} (result : Except Error α) : Prop :=
  ∀ e, result = .error e → ∃ cause, e = .malformedMessage cause

namespace FailsMalformed

variable {α β : Type}

theorem of_ok (a : α) : FailsMalformed (.ok a) := fun _ h => by cases h

theorem of_pure (a : α) : FailsMalformed (pure a) := of_ok a

theorem of_malformed (cause : Malformation) :
    FailsMalformed (.error (.malformedMessage cause) : Except Error α) :=
  fun _ h => by cases h; exact ⟨cause, rfl⟩

/-- Steps that fail in no other way make a row that fails in no other way. -/
theorem bind {x : Except Error α} {f : α → Except Error β} (hx : FailsMalformed x)
    (hf : ∀ a, FailsMalformed (f a)) : FailsMalformed (x >>= f) := by
  rcases x with e | a
  · obtain ⟨cause, rfl⟩ := hx e rfl
    exact of_malformed cause
  · exact hf a

end FailsMalformed

open FailsMalformed

theorem ErrorCode.failsMalformed_ofJson (value : Json) : FailsMalformed (ofJson value) := by
  unfold ofJson
  simp only
  split
  · exact of_ok _
  · exact of_malformed _

theorem Failure.failsMalformed_ofParts (action : Action) (code : Option Json) (message : String) :
    FailsMalformed (ofParts action code message) := by
  unfold ofParts
  split
  · exact .bind (ErrorCode.failsMalformed_ofJson _) fun _ => of_pure _
  · exact of_pure _

namespace Inbound

theorem failsMalformed_readNonce (nonce : Option String) : FailsMalformed (readNonce nonce) := by
  unfold readNonce
  repeat' split
  all_goals first | exact of_ok _ | exact of_malformed _

theorem failsMalformed_readKeyExchange (fields : InboundFields) :
    FailsMalformed (readKeyExchange fields) := by
  unfold readKeyExchange
  simp only [pure_bind]
  repeat' split
  all_goals first
    | exact of_malformed _
    | exact .bind (failsMalformed_readNonce _) fun _ => of_pure _

theorem failsMalformed_readBoxed (action : Action) (fields : InboundFields) :
    FailsMalformed (readBoxed action fields) := by
  unfold readBoxed
  simp only [pure_bind]
  repeat' split
  all_goals first
    | exact of_malformed _
    | exact .bind (failsMalformed_readNonce _) fun _ => of_pure _

theorem failsMalformed_ofFields (fields : InboundFields) : FailsMalformed (ofFields fields) := by
  unfold ofFields
  simp only [pure_bind]
  repeat' split
  all_goals first
    | exact of_malformed _
    | exact of_pure _
    | exact .bind (Failure.failsMalformed_ofParts _ _ _) fun _ => of_pure _
    | exact failsMalformed_readKeyExchange _
    | exact failsMalformed_readBoxed _ _

/-- Decoding fails with a malformed message only. -/
theorem decode_eq_error {text : String} {e : Error} (h : decode text = .error e) :
    ∃ cause, e = .malformedMessage cause := by
  unfold decode at h
  split at h
  · exact failsMalformed_ofFields _ e h
  · exact of_malformed _ e h

end Inbound

end VaultLink
