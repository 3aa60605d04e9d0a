import VaultLink.Proofs.Client.Prompting
import VaultLink.Proofs.Client.Retirement
import VaultLink.Proofs.Proxy.Classes

/-!
# Refusals in the open and in a box

The proxy can refuse a request in the open or in a box, with the same two members. Either way the round trip
fails, and with the same error unless one of them is null (`roundTrip_refused_alike`): in the open null
is nothing, but in a box a null stands for a member that is there.

* `Client.Payload`: the members of a refusal;
* `Client.Carries`: a message in the open with these members.
-/

namespace VaultLink

open InboundFields (Textual known ofMembers text? told)

namespace Client

open Json.Grammar (Blanks Denotes Shows)

variable {σ : Type} {c c₁ c₂ d d₁ d₂ : Client σ} {action : Action}
  {fields fields₁ fields₂ payload : Json.Members} {triggerUnlock unlock₁ unlock₂ : Bool}
  {request request₁ request₂ : SealedRequest} {signals signals₁ signals₂ : List Signal}
  {text plain boxed : String} {peer : PublicKey} {nonce : Nonce}

/-- The members of a refusal: a text or null, if anything, as the error and any code, at least one of the
two, and with them neither a raised success nor a nonce nor the name of another action. -/
structure Payload (action : Action) (payload : Json.Members) : Prop where
  text : ∀ v, payload.get? "error" = some v → v = .null ∨ ∃ s, v = .string s
  told : payload.get? "error" ≠ none ∨ payload.get? "errorCode" ≠ none
  failure : ¬ payload.Raises "success"
  nonce : payload.get? "nonce" = none
  action : payload.Agrees "action" action.wireName

/-- The text of a message is an object with the action of a request and the error and the code of a payload,
in any order, and with no other member that is known. -/
def Carries (action : Action) (payload : Json.Members) (text : String) : Prop :=
  ∃ before object after, ∃ members : Json.Members,
    Utf8.encode text = before ++ (object ++ after) ∧ Blanks before ∧ Blanks after ∧
    Shows known Json.depthLimit members object ∧ (members.map (·.1)).Nodup ∧
    (∀ member ∈ members, member.1 ∈ ["action", "error", "errorCode"]) ∧
    members.get? "action" = some (.string action.wireName) ∧
    ∀ name ∈ ["error", "errorCode"], members.get? name = payload.get? name

/-- No member of a payload is null that changes what the refusal means: neither the code, nor the error if
there is no code. -/
def Unequivocal (payload : Json.Members) : Prop :=
  payload.get? "errorCode" ≠ some .null ∧
    (payload.get? "errorCode" = none → payload.get? "error" ≠ some .null)

/-- The error of a refusal with a code and a text. -/
def refused (action : Action) (code : Option Json) (text : Option String) : Error :=
  match Failure.ofParts action code (text.getD "") with
  | .ok failure => failure.error
  | .error e => e

/-- What a payload means in the open, where null is nothing: with nothing told it is no refusal, and a reply
that lacks its box. -/
def openError (action : Action) (payload : Json.Members) : Error :=
  if (text? payload "error").isSome || (told payload "errorCode").isSome then
    refused action (told payload "errorCode") (text? payload "error")
  else .malformedMessage (.missingBox action)

/-- What a payload means in a box, where null is a member. -/
def boxError (action : Action) (payload : Json.Members) : Error :=
  refused action (payload.get? "errorCode") (payload.get? "error" >>= Json.asString?)

/-! ## In a box -/

theorem refusal_of_told (h : payload.get? "error" ≠ none ∨ payload.get? "errorCode" ≠ none) :
    refusal action payload = boxError action payload := by
  have hhas : (payload.has "error" || payload.has "errorCode") = true := by
    simpa [Json.Members.has, Option.isSome_iff_ne_none] using h
  rw [refusal, if_pos hhas]
  rfl

theorem checkReply_of_payload (h : Payload action payload) :
    checkReply action nonce payload = .error (boxError action payload) := by
  have haction := (checkMember_eq_ok_iff fun named => .namesAction action named.text).2 h.action
  have hnonce : payload.Agrees "nonce" nonce.toBase64 := fun v hv => by cases h.nonce.symm.trans hv
  have hnonce := (checkMember_eq_ok_iff fun _ => .foreignNonce action).2 hnonce
  have hsuccess : reportsSuccess payload = false := by
    rw [← Bool.not_eq_true, reportsSuccess_iff]
    exact h.failure
  rw [← refusal_of_told h.told, checkReply, haction, hnonce]
  simp only [bind, Except.bind, hsuccess, Bool.false_eq_true, if_false]
  rfl

theorem roundTrip_of_opens (h : Payload action payload) (hp : c.session.requirePeer = .ok peer)
    (hr : c.Receives action fields triggerUnlock request signals text d)
    (ho : Opens c.session.keys peer action request.replyNonce text payload) :
    ∃ d', roundTrip action fields triggerUnlock c = .error (boxError action payload) d' := by
  obtain ⟨hkeys, hpeer⟩ := hr.hears.session_eq
  obtain ⟨reply, hset⟩ := settle_of_opens (hpeer.trans hp) (hkeys ▸ ho)
    (timeoutFor c.config action triggerUnlock)
  rw [checkReply_of_payload h] at hset
  rw [roundTrip_of_receives hr]
  exact exists_closing_eq_error_iff.2 ⟨d, hset⟩

/-! ## In the open -/

/-- The known members of an object with no others than an action, an error and a code. -/
theorem ofMembers_of_names {members : Json.Members} {action : String}
    (hnames : ∀ member ∈ members, member.1 ∈ ["action", "error", "errorCode"])
    (ha : members.get? "action" = some (.string action)) :
    ofMembers members =
      { action := some action, error := text? members "error", errorCode := told members "errorCode" } := by
  have hnone (name : String) (h : name ∉ ["action", "error", "errorCode"]) : told members name = none := by
    have hget : members.get? name = none := by
      rw [Table.get?_eq_none_iff, List.mem_map]
      rintro ⟨member, hm, rfl⟩
      exact h (hnames member hm)
    rw [told, hget]
    rfl
  have haction : told members "action" = some (.string action) := by
    rw [told, ha]
    rfl
  simp only [ofMembers, text?]
  rw [haction, hnone "publicKey" (by decide), hnone "nonce" (by decide), hnone "message" (by decide),
    hnone "success" (by decide), hnone "version" (by decide)]
  rfl

theorem textual_of_carried {members : Json.Members} (hn : (members.map (·.1)).Nodup)
    (ha : members.get? "action" = some (.string action.wireName))
    (he : ∀ v, members.get? "error" = some v → v = .null ∨ ∃ s, v = .string s)
    (hnames : ∀ member ∈ members, member.1 ∈ ["action", "error", "errorCode"]) : Textual members := by
  rintro ⟨name, v⟩ hm
  have hget := (Table.get?_eq_some_iff hn).2 hm
  have hname := hnames _ hm
  simp only [List.mem_cons, List.not_mem_nil, or_false] at hname
  rcases hname with rfl | rfl | rfl
  · cases ha.symm.trans hget
    rfl
  · rcases he v hget with rfl | ⟨s, rfl⟩ <;> rfl
  · rfl

/-- A refusal in the open is one unless both of its members are left out or null. -/
theorem decode_of_carries (hs : Outbound.sendable action = true) (h : Payload action payload)
    (hc : Carries action payload text) :
    Inbound.decode text =
      if (text? payload "error").isSome || (told payload "errorCode").isSome then
        Failure.ofParts action (told payload "errorCode") ((text? payload "error").getD "") >>=
          fun failure => pure (.failure failure)
      else .error (.malformedMessage (.missingBox action)) := by
  obtain ⟨before, object, after, members, ht, hb, ha, hshows, hn, hnames, haction, hsame⟩ := hc
  have herror := hsame "error" (by decide)
  have hcode := hsame "errorCode" (by decide)
  have hread := (InboundFields.read_of_shows ht hb ha hshows hn).1
    (textual_of_carried hn haction (herror ▸ h.text) hnames)
  simp only [Outbound.sendable, Bool.and_eq_true, decide_eq_true_eq, Bool.not_eq_true'] at hs
  rw [Inbound.decode, hread, ofMembers_of_names hnames haction, text?, told, herror, told, hcode]
  refine (Inbound.ofFields_of_action rfl).trans ?_
  simp only [Signal.ofAction?_eq_none hs.2, if_neg hs.1]
  rfl

theorem roundTrip_of_carries (h : Payload action payload)
    (hr : c.Receives action fields triggerUnlock request signals text d)
    (hc : Carries action payload text) :
    ∃ d', roundTrip action fields triggerUnlock c = .error (openError action payload) d' := by
  have hs : Outbound.sendable action = true := by
    obtain ⟨-, sent, deadline, link, hw, -⟩ := hr
    exact (submit_eq_ok hw).sendable
  have hdec := decode_of_carries hs h hc
  rw [roundTrip_of_receives hr]
  refine exists_closing_eq_error_iff.2 ⟨d, ?_⟩
  have hfails {e : Error} (he : Inbound.decode text = .error e) :
      (ofExcept (conclude action (timeoutFor c.config action triggerUnlock) (.message text)) >>=
        settle action request) d = .error e d := by
    refine bind_of_error ?_ _
    simp only [conclude, he]
    rfl
  split at hdec
  · rename_i htold
    rw [openError, if_pos htold, refused]
    rcases hparts : Failure.ofParts action (told payload "errorCode") ((text? payload "error").getD "") with
      e | failure <;> rw [hparts] at hdec
    · exact hfails hdec
    · obtain ⟨rfl, -, -⟩ := Failure.ofParts_eq_ok_iff.1 hparts
      exact settle_of_failure hdec _ _
  · rename_i htold
    rw [openError, if_neg htold]
    exact hfails hdec

/-! ## Either way -/

theorem told_eq_iff {name : String} :
    told payload name = payload.get? name ↔ payload.get? name ≠ some .null := by
  rw [told]
  rcases payload.get? name with _ | v
  · simp
  · cases v <;> simp [InboundFields.counted]

theorem text?_eq (name : String) :
    text? payload name = payload.get? name >>= Json.asString? := by
  rw [text?, told]
  rcases payload.get? name with _ | v
  · rfl
  · cases v <;> rfl

theorem refused_none (text : Option String) :
    refused action none text = .rejected (.other 0) (text.getD "") := rfl

theorem refused_null (text : Option String) :
    refused action (some .null) text = .malformedMessage (.badErrorCode (Json.text .null)) := rfl

/-- What the two members of a payload mean in the open and what they mean in a box is the same error unless
one of them is null. -/
theorem openError_eq_boxError_iff (h : Payload action payload) :
    openError action payload = boxError action payload ↔ Unequivocal payload := by
  rw [openError, boxError, text?_eq]
  rcases hcode : payload.get? "errorCode" with _ | v
  · have htold : told payload "errorCode" = none := (told_eq_iff.2 (by rw [hcode]; nofun)).trans hcode
    rcases herror : payload.get? "error" with _ | e
    · exact absurd hcode (h.told.resolve_left (not_not_intro herror))
    rw [htold, refused_none]
    rcases h.text e herror with rfl | ⟨s, rfl⟩
    · simp [Unequivocal, hcode, herror, Json.asString?]
    · simp [Unequivocal, hcode, herror, Json.asString?]
  by_cases hv : v = .null
  · subst hv
    have htold : told payload "errorCode" = none := by rw [told, hcode]; rfl
    have hnull : ¬ Unequivocal payload := fun h => h.1 hcode
    rw [htold, refused_none, refused_null, iff_false_right hnull]
    split <;> simp
  · have htold : told payload "errorCode" = some v :=
      (told_eq_iff.2 (by simpa [hcode] using hv)).trans hcode
    simp [htold, Unequivocal, hcode, hv]

/-- A round trip that is refused fails with the same error in the open and in a box, unless a member of
the refusal is null that changes what it means. -/
theorem roundTrip_refused_alike (h : Payload action payload)
    (hplain : c₁.Receives action fields₁ unlock₁ request₁ signals₁ plain d₁)
    (hc : Carries action payload plain) (hp : c₂.session.requirePeer = .ok peer)
    (hboxed : c₂.Receives action fields₂ unlock₂ request₂ signals₂ boxed d₂)
    (ho : Opens c₂.session.keys peer action request₂.replyNonce boxed payload) :
    ∃ e₁ e₂, (∃ d, roundTrip action fields₁ unlock₁ c₁ = .error e₁ d) ∧
      (∃ d, roundTrip action fields₂ unlock₂ c₂ = .error e₂ d) ∧ (e₁ = e₂ ↔ Unequivocal payload) :=
  ⟨_, _, roundTrip_of_carries h hplain hc, roundTrip_of_opens h hp hboxed ho,
    openError_eq_boxError_iff h⟩

/-! ## Refusals of a first request -/

/-- The first request after a key exchange receives an object that it meets and that is no signal. -/
theorem exists_receives_answering (ht : Json.Grammar.IsObject (Utf8.encode text))
    (hs : (Link.Received.message text).signal? = none) :
    ∃ request d, (connected (answering [.data (Utf8.encode text)])).Receives .getDatabaseHash [] false
      request [] text d ∧ request.replyNonce = .ofNatLE 24 1 := by
  obtain ⟨request, sent, message, hl, hw⟩ := exists_submit_answering [.data (Utf8.encode text)]
  have hlt : (0 : Instant) + Duration.ofSeconds 5 < Instant.beyond := by decide
  have hd : sent.deadline? (Duration.ofSeconds 5) = some (Duration.ofSeconds 5) := by
    rw [deadline?, hl]
    exact (if_pos hlt).trans (congrArg some (Nat.zero_add _))
  have hreceive : sent.link.receive (some (Duration.ofSeconds 5)) =
      (.message text, { sent.link with arrivals := [] }) :=
    Link.receive_object ht (by rw [hl]) (by rw [hl]) _
  refine ⟨request, _, ⟨rfl, sent, _, _, hw, hd, .last hreceive hs, rfl⟩, ofNatLE_of_toNatLE ?_⟩
  rw [(submit_eq_ok hw).reserves.reply_toNatLE]
  show Bytes.toNatLE (Bytes.ofNatLE 24 0) + 1 = 1
  rw [Bytes.toNatLE_ofNatLE]

/-- A refusal with a text and a code. -/
def coded (code : Json) : Json.Members := [("error", .string "refused"), ("errorCode", code)]

/-- The members of a refusal as they are written. -/
def codedText (item : Bytes) : Bytes :=
  Json.quote "error" ++ 0x3A :: Json.quote "refused" ++ 0x2C :: (Json.quote "errorCode" ++ 0x3A :: item)

theorem denotes_coded {depth : Nat} {code : Json} {item : Bytes} (h : Denotes depth (.item code) item) :
    Denotes depth (.members (coded code)) (codedText item) :=
  .moreMembers (.member (Json.named_quote "error" _) (Json.denotes_quote depth "refused"))
    (.lastMember (.member (Json.named_quote "errorCode" _) h))

theorem isText_codedText {item : Bytes} (h : Utf8.IsText item) : Utf8.IsText (codedText item) :=
  ((Json.isText_quote _).append (.cons (by decide) (Json.isText_quote _))).append
    (.cons (by decide) ((Json.isText_quote _).append (.cons (by decide) h)))

/-- A client can meet a refusal of its first request in the open, whatever its code is. -/
theorem exists_receives_carries {code : Json} {item : Bytes} (h : Denotes 126 (.item code) item)
    (hi : Utf8.IsText item) (hp : Payload .getDatabaseHash (coded code)) :
    ∃ (plain : String) (request : SealedRequest) (d : Client Unit),
      (connected (answering [.data (Utf8.encode plain)])).Receives .getDatabaseHash [] false request []
        plain d ∧ Carries .getDatabaseHash (coded code) plain := by
  have hmembers := Denotes.moreMembers
    (.member (Json.named_quote "action" _)
      (Json.denotes_quote 126 (Action.getDatabaseHash.wireName))) (denotes_coded h)
  obtain ⟨plain, ht⟩ := Utf8.IsText.cons (b := 0x7B) (by decide) <|
    (((Json.isText_quote "action").append (.cons (b := 0x3A) (by decide) (Json.isText_quote
      Action.getDatabaseHash.wireName))).append (.cons (b := 0x2C) (by decide)
        (isText_codedText hi))).append (Utf8.isText_singleton 0x7D (by decide))
  have hobject : Json.Grammar.IsObject (Utf8.encode plain) :=
    ⟨_, ht.symm, .inr (Json.derives_of_denotes hmembers)⟩
  have hblanks : Blanks [] := List.forall_mem_nil _
  have hcarries : Carries .getDatabaseHash (coded code) plain := by
    have hshows := Shows.members (Json.lists_of_denotes hmembers known)
    rw [List.filter_eq_self.2 (by simp [coded, known, InboundFields.shape])] at hshows
    refine ⟨[], _, [], _, ?_, hblanks, hblanks, hshows, ?_, ?_, rfl, ?_⟩
    · rw [← ht, List.append_nil, List.nil_append]
    · show ["action", "error", "errorCode"].Nodup
      decide
    · simp [coded]
    · simp [coded, Table.get?]
  have hsignal : (Link.Received.message plain).signal? = none := by
    have hdec := (decode_of_carries rfl hp hcarries).trans (if_pos rfl)
    rw [Link.Received.signal?, hdec]
    rcases Failure.ofParts .getDatabaseHash _ _ with e | failure <;> rfl
  obtain ⟨request, d, hr, -⟩ := exists_receives_answering hobject hsignal
  exact ⟨plain, request, d, hr, hcarries⟩

/-- A client can meet a refusal of its first request in a box, whatever its code is. -/
theorem exists_receives_opens {code : Json} {item : Bytes} (h : Denotes 126 (.item code) item) :
    ∃ (boxed : String) (request : SealedRequest) (d : Client Unit),
      (connected (answering [.data (Utf8.encode boxed)])).Receives .getDatabaseHash [] false request []
        boxed d ∧
      Opens (connected (answering [.data (Utf8.encode boxed)])).session.keys
        (KeyPair.ofSecret (.ofNatLE 32 2)).publicKey .getDatabaseHash request.replyNonce boxed
        (coded code) := by
  let keys : KeyPair := .ofSecret (.ofNatLE 32 1)
  let peer := (KeyPair.ofSecret (.ofNatLE 32 2)).publicKey
  let plaintext := 0x7B :: (codedText item ++ [0x7D])
  let reply : BoxedReply :=
    ⟨.getDatabaseHash, .ofNatLE 24 1, Box.encrypt keys peer (.ofNatLE 24 1) plaintext⟩
  obtain ⟨boxed, ht⟩ := Json.isText_render (areTexts_boxedMembers reply)
  have hobject := Json.isObject_render (areTexts_boxedMembers reply)
  rw [ht] at hobject
  have hdec : Inbound.decode boxed = .ok (.encrypted reply) := Inbound.decode_boxed rfl ht.symm
  obtain ⟨request, d, hr, hnonce⟩ := exists_receives_answering hobject
    (by simp only [Link.Received.signal?, hdec])
  have hblanks : Blanks [] := List.forall_mem_nil _
  have hordered : (coded code).Ordered :=
    Table.ordered_of_names (show ["error", "errorCode"].Pairwise (· < ·) by decide)
  have hparse : Json.parse plaintext = .ok (.object (coded code)) := by
    have := Denotes.item hblanks (.object (denotes_coded h)) hblanks
    rw [List.nil_append, List.append_nil, Json.Members.ofList_of_ordered hordered] at this
    exact Json.parse_of_denotes this
  refine ⟨boxed, request, d, hr, ?_⟩
  rw [hnonce]
  exact ⟨_, plaintext, hdec, Box.decrypt_encrypt _ _ _ _, hparse⟩

theorem payload_coded (code : Json) : Payload .getDatabaseHash (coded code) where
  text _ hv := .inr ⟨"refused", (Option.some.inj hv).symm⟩
  told := .inl nofun
  failure := fun ⟨_, hv, _⟩ => nomatch hv
  nonce := rfl
  action := fun _ hv => nomatch hv

/-- A refusal with a code in a string fails with one error, in the open and in a box. -/
theorem roundTrip_refused_alike_coded :
    ∃ (c₁ c₂ d₁ d₂ : Client Unit) (payload : Json.Members) (request₁ request₂ : SealedRequest)
      (plain boxed : String) (peer : PublicKey) (e : Error),
      Payload .getDatabaseHash payload ∧ payload.get? "errorCode" = some (.string "15") ∧
      c₁.Receives .getDatabaseHash [] false request₁ [] plain d₁ ∧
      Carries .getDatabaseHash payload plain ∧ c₂.session.requirePeer = .ok peer ∧
      c₂.Receives .getDatabaseHash [] false request₂ [] boxed d₂ ∧
      Opens c₂.session.keys peer .getDatabaseHash request₂.replyNonce boxed payload ∧
      (∃ d, roundTrip .getDatabaseHash [] false c₁ = .error e d) ∧
      ∃ d, roundTrip .getDatabaseHash [] false c₂ = .error e d := by
  have hcode := Json.denotes_quote 126 "15"
  have hp := payload_coded (.string "15")
  obtain ⟨plain, request₁, d₁, h₁, hcarries⟩ :=
    exists_receives_carries hcode (Json.isText_quote "15") hp
  obtain ⟨boxed, request₂, d₂, h₂, hopens⟩ := exists_receives_opens hcode
  obtain ⟨e₁, e₂, hr₁, hr₂, hiff⟩ := roundTrip_refused_alike hp h₁ hcarries rfl h₂ hopens
  obtain rfl := hiff.2 ⟨nofun, nofun⟩
  exact ⟨_, _, _, _, _, _, _, _, _, _, _, hp, rfl, h₁, hcarries, rfl, h₂, hopens, hr₁, hr₂⟩

/-- A client does not always fail with the same error, whether the refusal comes in the open or in a box:
its code can be null. -/
theorem not_forall_refused_alike :
    ¬ ∀ (c d₁ d₂ : Client Unit) (link : Link) (action : Action) (payload fields : Json.Members)
      (triggerUnlock : Bool) (request₁ request₂ : SealedRequest) (plain boxed : String)
      (peer : PublicKey) (e : Error),
      Payload action payload → c.session.requirePeer = .ok peer →
      c.Receives action fields triggerUnlock request₁ [] plain d₁ → Carries action payload plain →
      Client.Receives { c with link } action fields triggerUnlock request₂ [] boxed d₂ →
      Opens c.session.keys peer action request₂.replyNonce boxed payload →
      (∃ d, roundTrip action fields triggerUnlock c = .error e d) →
      ∃ d, roundTrip action fields triggerUnlock { c with link } = .error e d := by
  intro h
  have hblanks : Blanks [] := List.forall_mem_nil _
  have hnull : Denotes 126 (.item .null) [0x6E, 0x75, 0x6C, 0x6C] := .item hblanks .null hblanks
  have hp := payload_coded .null
  obtain ⟨plain, request₁, d₁, h₁, hcarries⟩ :=
    exists_receives_carries hnull (Utf8.isText_ascii (by simp)) hp
  obtain ⟨boxed, request₂, d₂, h₂, hopens⟩ := exists_receives_opens hnull
  have hplain := roundTrip_of_carries hp h₁ hcarries
  obtain ⟨d₃, hboxed⟩ := roundTrip_of_opens hp rfl h₂ hopens
  obtain ⟨d₄, halike⟩ := h _ _ _ _ _ _ _ _ _ _ _ _ _ _ hp rfl h₁ hcarries h₂ hopens hplain
  cases halike.symm.trans hboxed

end Client

end VaultLink
