import VaultLink.Proofs.Crypto.Sealing
import VaultLink.Proofs.Json.Rendering
import VaultLink.Proofs.Session.Reservation

/-!
# What a sealed request carries

The box of a request opens to JSON text, and the object that the text stands for is the caller's fields
with the request's action, nonce and client in them (`sealRequest_carries`). These three replace what the
caller may have put under their names, and the rest is as it was (`get?_payload`).

* `Sendable`: the fields that survive being written and read: no doubles, and not too many containers
  inside one another.
-/

namespace VaultLink.Session

variable {fields : Json.Members}

/-- Fields that JSON text has room for, without doubles. -/
structure Sendable (fields : Json.Members) : Prop where
  wellFormed : (Json.object fields).WellFormed
  integral : (Json.object fields).Integral
  nests : ∀ member ∈ fields, member.2.Nests 126

/-- The payload of a request, member by member. -/
theorem get?_payload (s : Session) (action : Action) (nonce : Nonce) (fields : Json.Members)
    (name : String) :
    (s.payload action nonce fields).get? name =
      if name = "action" then some (.string action.wireName)
      else if name = "nonce" then some (.string nonce.toBase64)
      else if name = "clientID" then some (.string s.clientId)
      else fields.get? name := by
  simp only [payload, Table.get?_insert]
  by_cases hc : "clientID" = name
  · subst hc
    simp
  · by_cases hn : "nonce" = name
    · subst hn
      simp
    · by_cases ha : "action" = name
      · subst ha
        simp
      · simp only [hc, hn, ha, Ne.symm hc, Ne.symm hn, Ne.symm ha, if_false]

theorem ordered_payload (s : Session) (action : Action) (nonce : Nonce) (h : fields.Ordered) :
    (s.payload action nonce fields).Ordered :=
  Table.ordered_insert (Table.ordered_insert (Table.ordered_insert h))

/-- A payload has the caller's members and members that are strings. -/
theorem mem_payload {s : Session} {action : Action} {nonce : Nonce} {member : String × Json}
    (h : member ∈ s.payload action nonce fields) : (∃ text, member.2 = .string text) ∨ member ∈ fields := by
  rcases Table.mem_insert h with rfl | h
  · exact .inl ⟨_, rfl⟩
  rcases Table.mem_insert h with rfl | h
  · exact .inl ⟨_, rfl⟩
  rcases Table.mem_insert h with rfl | h
  · exact .inl ⟨_, rfl⟩
  · exact .inr h

/-- Fields that can be sent are sent in a payload that can be sent. -/
theorem Sendable.payload (h : Sendable fields) (s : Session) (action : Action) (nonce : Nonce) :
    Sendable (s.payload action nonce fields) := by
  obtain ⟨hw, hi, hn⟩ := h
  cases hw with
  | object _ ho hw =>
    cases hi with
    | object hi =>
      refine ⟨.object _ (ordered_payload s action nonce ho) fun member hm => ?_,
        .object fun member hm => ?_, fun member hm => ?_⟩
      all_goals rcases mem_payload hm with ⟨text, ht⟩ | hm
      · exact ht ▸ .string text
      · exact hw member hm
      · exact ht ▸ .string text
      · exact hi member hm
      · exact ht ▸ .string 126 text
      · exact hn member hm

/-- In an established session with two nonces left every request can be sealed. Its box, opened under the
key of the session and the nonce of the envelope, holds UTF-8 text of an object: the caller's fields, and
over them the action, nonce and client that the envelope names. -/
theorem sealRequest_carries {s : Session} {peer : PublicKey} {version : Option String}
    (hs : s.handshake = .established peer version) (hp : s.nonces.position + 2 ≤ Nonce.count)
    (hf : Sendable fields) (action : Action) (triggerUnlock : Bool) :
    ∃ box nonce replyNonce t text, ∃ members : Json.Members,
      s.sealRequest action fields triggerUnlock =
        (.ok ⟨.encrypted action box nonce s.clientId triggerUnlock, replyNonce⟩, t) ∧
      Box.decrypt s.keys peer nonce box = .ok (Utf8.encode text) ∧
      Json.parse (Utf8.encode text) = .ok (.object members) ∧ members.Ordered ∧
      ∀ name, members.get? name =
        if name = "action" then some (.string action.wireName)
        else if name = "nonce" then some (.string nonce.toBase64)
        else if name = "clientID" then some (.string s.clientId)
        else fields.get? name := by
  obtain ⟨nonce, replyNonce, t, hr⟩ := exists_reserve_eq_ok hp
  obtain ⟨-, nonces, rfl⟩ := reserve_eq_ok hr
  have hpayload := hf.payload s action nonce
  obtain ⟨text, ht⟩ := Json.isText_render_value hpayload.integral
  refine ⟨_, nonce, replyNonce, _, text, s.payload action nonce fields,
    by simp only [sealRequest, requirePeer, hs, hr]; rfl, ?_, ?_, ?_, get?_payload s action nonce fields⟩
  · rw [← ht]
    exact Box.decrypt_encrypt s.keys peer nonce _
  · rw [← ht]
    exact Json.parse_render_value hpayload.wellFormed hpayload.integral (.object hpayload.nests)
  · cases hpayload.wellFormed with
    | object _ ho _ => exact ho

/-- Fields with a member of a name that is not the caller's to give, integers at the limits, and a text
with escapes inside two containers. -/
def awkward : Json.Members :=
  [("action", .string "forged"),
    ("limits", .array [.number (.int ⟨-9223372036854775808, by decide, by decide⟩),
      .number (.int ⟨18446744073709551615, by decide, by decide⟩),
      .object [("text", .string "\"\\\u0001é")]])]

/-- A session with exactly two nonces left. -/
def ending : Session where
  clientId := "client"
  keys := .ofSecret (.ofNatLE 32 1)
  handshake := .established (KeyPair.ofSecret (.ofNatLE 32 2)).publicKey none
  nonces := .new (.ofNatLE 24 (Nat.pow 256 24 - 2))

theorem sealRequest_carries_awkward :
    let s := ending
    let peer := (KeyPair.ofSecret (.ofNatLE 32 2)).publicKey
    s.handshake = .established peer none ∧ s.nonces.position + 2 ≤ Nonce.count ∧ Sendable awkward ∧
    ∃ box nonce replyNonce t text, ∃ members : Json.Members,
      s.sealRequest .getLogins awkward true =
        (.ok ⟨.encrypted .getLogins box nonce s.clientId true, replyNonce⟩, t) ∧
      Box.decrypt s.keys peer nonce box = .ok (Utf8.encode text) ∧
      Json.parse (Utf8.encode text) = .ok (.object members) ∧ members.Ordered ∧
      ∀ name, members.get? name =
        if name = "action" then some (.string (Action.getLogins).wireName)
        else if name = "nonce" then some (.string nonce.toBase64)
        else if name = "clientID" then some (.string s.clientId)
        else awkward.get? name := by
  intro s peer
  have hs : s.handshake = .established peer none := rfl
  have hposition : s.nonces.position = Nat.pow 256 24 - 2 :=
    (Bytes.toNatLE_ofNatLE 24 _).trans (by decide)
  have hp : s.nonces.position + 2 ≤ Nonce.count := calc
    s.nonces.position + 2 = Nat.pow 256 24 - 2 + 2 := congrArg (· + 2) hposition
    _ ≤ Nonce.count := by decide
  have hf : Sendable awkward := by
    refine ⟨.object _ (Table.ordered_of_names
      (show ["action", "limits"].Pairwise (· < ·) by decide)) ?_, .object ?_, ?_⟩
    all_goals refine List.forall_mem_cons.2 ⟨?_, List.forall_mem_singleton.2 ?_⟩
    · exact .string _
    · refine .array _ (List.forall_mem_cons.2 ⟨.number _, List.forall_mem_cons.2 ⟨.number _,
        List.forall_mem_singleton.2 (.object _ (List.pairwise_singleton _ _) ?_)⟩⟩)
      exact List.forall_mem_singleton.2 (.string _)
    · exact .string _
    · exact .array (List.forall_mem_cons.2 ⟨.int _, List.forall_mem_cons.2 ⟨.int _,
        List.forall_mem_singleton.2 (.object (List.forall_mem_singleton.2 (.string _)))⟩⟩)
    · exact .string _ _
    · exact .array (List.forall_mem_cons.2 ⟨.number _ _, List.forall_mem_cons.2 ⟨.number _ _,
        List.forall_mem_singleton.2 (.object (List.forall_mem_singleton.2 (.string _ _)))⟩⟩)
  exact ⟨hs, hp, hf, sealRequest_carries hs hp hf .getLogins true⟩

end VaultLink.Session
