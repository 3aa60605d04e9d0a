import VaultLink.Proofs.Crypto.Sealing
import VaultLink.Proofs.Proxy.Members
import VaultLink.Proofs.Text.Base64
import VaultLink.Proxy.Outbound

/-!
# How the proxy's messages are written

A reply in a box, the reply to the key exchange, a refusal and a signal can each be written as an object
of strings, and the client takes its text for what it is (`Inbound.decode_boxed`, `Inbound.decode_keys`,
`Inbound.decode_refusal`, `Inbound.decode_signal`).
-/

namespace VaultLink

theorem Nonce.ofBase64_toBase64 (nonce : Nonce) : ofBase64 nonce.toBase64 = .ok nonce := by
  have hb : FixedBytes.ofBytes? 24 nonce.bytes = some nonce := FixedBytes.ofBytes?_eq_some_iff.2 rfl
  rw [ofBase64, toBase64, Base64.decode_encode]
  simp only [hb]

theorem Signal.ofAction?_eq_none {action : Action} (h : action.isSignal = false) :
    ofAction? action = none := by
  cases action <;> first | rfl | cases h

theorem Signal.ofAction?_action (s : Signal) : ofAction? s.action = some s := by
  cases s <;> rfl

namespace Inbound

/-- A reply in a box as the proxy writes it. -/
def boxedMembers (reply : BoxedReply) : Json.Members :=
  [("action", .string reply.action.wireName), ("message", .string (Base64.encode reply.box)),
    ("nonce", .string reply.nonce.toBase64)]

/-- The reply to the key exchange as the proxy writes it if it takes part. -/
def keyMembers (peer : PublicKey) (nonce : Nonce) : Json.Members :=
  [("action", .string Action.changePublicKeys.wireName), ("nonce", .string nonce.toBase64),
    ("publicKey", .string peer.toBase64), ("success", .string "true")]

/-- A refusal as the proxy writes it, with the text of its code. -/
def refusalMembers (failure : Failure) (code : String) : Json.Members :=
  [("action", .string failure.action.wireName), ("error", .string failure.message),
    ("errorCode", .string code)]

/-- A signal as the proxy writes it. -/
def signalMembers (s : Signal) : Json.Members := [("action", .string s.action.wireName)]

variable {text : String}

/-- An object of strings is decoded by what its members say. -/
theorem decode_of_texts {members : Json.Members} {fields : InboundFields}
    (ht : Utf8.encode text = Json.render (.object members)) (h : Json.AreTexts members)
    (hn : (members.map (·.1)).Nodup) (hf : InboundFields.ofMembers members = fields) :
    decode text = ofFields fields := by
  rw [decode, InboundFields.read_render h hn ht, hf]

/-- A box and its nonce make a reply in a box. -/
theorem ofFields_boxed {reply : BoxedReply} (ha : Outbound.sendable reply.action = true) :
    ofFields { action := some reply.action.wireName, message := some (Base64.encode reply.box),
               nonce := some reply.nonce.toBase64 } = .ok (.encrypted reply) := by
  have hname : Action.ofName? reply.action.wireName = some reply.action :=
    Action.ofName?_eq_some_iff.2 rfl
  simp only [Outbound.sendable, Bool.and_eq_true, decide_eq_true_eq, Bool.not_eq_true'] at ha
  simp only [ofFields, pure, Except.pure, bind, Except.bind, hname,
    Signal.ofAction?_eq_none ha.2, Option.isSome_none, Bool.or_self, Bool.false_eq_true, if_false,
    ha.1, readBoxed, Base64.decode_encode, readNonce, Nonce.ofBase64_toBase64]

/-- A key and its nonce make a reply to the key exchange. -/
theorem ofFields_keys (peer : PublicKey) (nonce : Nonce) (success : Option Json) :
    ofFields { action := some Action.changePublicKeys.wireName, publicKey := some peer.toBase64,
               nonce := some nonce.toBase64, success } =
      .ok (.keyExchange ⟨(success.map Json.truthy).getD false, some peer.bytes, none, nonce⟩) := by
  have hname : Action.ofName? Action.changePublicKeys.wireName = some .changePublicKeys :=
    Action.ofName?_eq_some_iff.2 rfl
  have hkey : Base64.decode peer.toBase64 = .ok peer.bytes := Base64.decode_encode _
  simp only [ofFields, pure, Except.pure, bind, Except.bind, hname,
    show Signal.ofAction? .changePublicKeys = none from rfl, Option.isSome_none, Bool.or_self,
    Bool.false_eq_true, if_false, if_true, readKeyExchange, hkey, readNonce,
    Nonce.ofBase64_toBase64]

theorem decode_boxed {reply : BoxedReply} (ha : Outbound.sendable reply.action = true)
    (ht : Utf8.encode text = Json.render (.object (boxedMembers reply))) :
    decode text = .ok (.encrypted reply) := by
  rw [decode_of_texts ht (.cons (.cons (.cons .nil))) (by simp [boxedMembers]) rfl]
  exact ofFields_boxed ha

theorem decode_keys {peer : PublicKey} {nonce : Nonce}
    (ht : Utf8.encode text = Json.render (.object (keyMembers peer nonce))) :
    decode text = .ok (.keyExchange ⟨true, some peer.bytes, none, nonce⟩) := by
  rw [decode_of_texts ht (.cons (.cons (.cons (.cons .nil)))) (by simp [keyMembers]) rfl]
  exact ofFields_keys peer nonce (some (.string "true"))

theorem decode_refusal {failure : Failure} {code : String}
    (ha : failure.action.isSignal = false) (hc : ErrorCode.ofJson (.string code) = .ok failure.code)
    (ht : Utf8.encode text = Json.render (.object (refusalMembers failure code))) :
    decode text = .ok (.failure failure) := by
  have hfields : InboundFields.ofMembers (refusalMembers failure code) =
      { action := some failure.action.wireName, error := some failure.message,
        errorCode := some (.string code) } := rfl
  rw [decode_of_texts ht (.cons (.cons (.cons .nil))) (by simp [refusalMembers]) hfields]
  have hname : Action.ofName? failure.action.wireName = some failure.action :=
    Action.ofName?_eq_some_iff.2 rfl
  simp only [ofFields, pure, Except.pure, bind, Except.bind, hname, Signal.ofAction?_eq_none ha,
    Option.isSome_some, Bool.or_self, if_true, Failure.ofParts, hc, Option.getD_some]

theorem decode_signal {s : Signal}
    (ht : Utf8.encode text = Json.render (.object (signalMembers s))) :
    decode text = .ok (.signal s) := by
  have hfields : InboundFields.ofMembers (signalMembers s) = { action := some s.action.wireName } := rfl
  rw [decode_of_texts ht (.cons .nil) (by simp [signalMembers]) hfields]
  have hname : Action.ofName? s.action.wireName = some s.action :=
    Action.ofName?_eq_some_iff.2 rfl
  simp only [ofFields, pure, Except.pure, bind, Except.bind, hname, Signal.ofAction?_action]

end Inbound

end VaultLink
