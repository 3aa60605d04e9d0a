import VaultLink.Proofs.Proxy.Answering
import VaultLink.Proofs.Proxy.Decoding
import VaultLink.Proofs.Text.Integer

/-!
# What a message from the proxy is

Of an object only its known members matter, in any order; null is no member. What they make is said here by
rules, one for each kind of message, and decoding follows them: it gives a message just if the rules make
that message of the members, and a malformed message is all it can fail with
(`Inbound.decode_of_shows`).

* `ErrorCode.Told`: the code of a refusal;
* `Inbound.Made`: the message that members make.
-/

namespace VaultLink

open InboundFields (Textual counted known ofMembers text? textNames told)
open Json (Members)

/-- The code that a refusal has: an integer that fits 64 bits with a sign, or a string in which nothing but
one stands between blanks; without a code the refusal has the code zero. -/
inductive ErrorCode.Told : Option Json → ErrorCode → Prop
  | nothing : Told none (.other 0)
  | number {i : WideInt} : i.val < 9223372036854775808 →
    Told (some (.number (.int i))) (.ofCode i.val)
  | text {s : String} {before cs after : List Char} {i : Int} : s.toList = before ++ (cs ++ after) →
    (∀ c ∈ before, Blank.isBlank c = true) → (∀ c ∈ after, Blank.isBlank c = true) →
    Integer.Written cs i → -9223372036854775808 ≤ i → i < 9223372036854775808 →
    Told (some (.string s)) (.ofCode i)

/-- The message that members make, by what is told under each known name. -/
inductive Inbound.Made (told : String → Option Json) : Inbound → Prop
  | signal {s : Signal} : told "action" = some (.string s.action.wireName) → Made told (.signal s)
  | failure {action : Action} {code : ErrorCode} {message : Option String} :
    told "action" = some (.string action.wireName) → action.isSignal = false →
    told "error" = message.map .string → told "error" ≠ none ∨ told "errorCode" ≠ none →
    code.Told (told "errorCode") → Made told (.failure ⟨action, code, message.getD ""⟩)
  | keyExchange {publicKey : Option Bytes} {version : Option String} {nonce : Nonce} :
    told "action" = some (.string Action.changePublicKeys.wireName) → told "error" = none →
    told "errorCode" = none → told "message" = none →
    told "publicKey" = publicKey.map (fun key => .string (Base64.encode key)) →
    told "version" = version.map .string → told "nonce" = some (.string nonce.toBase64) →
    Made told (.keyExchange ⟨(told "success").any Json.truthy, publicKey, version, nonce⟩)
  | encrypted {action : Action} {nonce : Nonce} {box : Bytes} :
    told "action" = some (.string action.wireName) → Outbound.sendable action = true →
    told "error" = none → told "errorCode" = none → told "publicKey" = none →
    told "message" = some (.string (Base64.encode box)) →
    told "nonce" = some (.string nonce.toBase64) → Made told (.encrypted ⟨action, nonce, box⟩)

/-! ## Parts of a message -/

theorem WideInt.toSigned?_eq_some_iff {i : WideInt} {n : Int} :
    i.toSigned? = some n ↔ i.val < 9223372036854775808 ∧ i.val = n := by
  unfold toSigned?
  split
  · rename_i h
    simp [h]
  · rename_i h
    simp [h]

theorem ErrorCode.ofJson_number (i : WideInt) {code : ErrorCode} :
    ofJson (.number (.int i)) = .ok code ↔ ∃ n, i.toSigned? = some n ∧ ofCode n = code := by
  simp only [ofJson, Json.Number.toSigned?]
  cases i.toSigned? <;> simp

theorem ErrorCode.ofJson_string (s : String) {code : ErrorCode} :
    ofJson (.string s) = .ok code ↔
      ∃ n, Integer.signed64? (Blank.trim s) = some n ∧ ofCode n = code := by
  rw [ofJson]
  cases Integer.signed64? (Blank.trim s) <;> simp

theorem ErrorCode.ofJson_eq_ok_iff {v : Json} {code : ErrorCode} :
    ofJson v = .ok code ↔ code.Told (some v) := by
  cases v with
  | null | bool | array | object => exact ⟨nofun, nofun⟩
  | number n =>
    cases n with
    | float => exact ⟨nofun, nofun⟩
    | int i =>
      rw [ofJson_number]
      constructor
      · rintro ⟨n, hn, rfl⟩
        obtain ⟨hlt, rfl⟩ := WideInt.toSigned?_eq_some_iff.1 hn
        exact .number hlt
      · intro h
        cases h with
        | number hlt => exact ⟨_, WideInt.toSigned?_eq_some_iff.2 ⟨hlt, rfl⟩, rfl⟩
  | string s =>
    rw [ofJson_string]
    constructor
    · rintro ⟨n, hn, rfl⟩
      obtain ⟨hl, hu, before, cs, after, hs, hb, ha, hw⟩ := Integer.signed64?_trim_eq_some_iff.1 hn
      exact .text hs hb ha hw hl hu
    · intro h
      cases h with
      | text hs hb ha hw hl hu =>
        exact ⟨_, Integer.signed64?_trim_eq_some_iff.2 ⟨hl, hu, _, _, _, hs, hb, ha, hw⟩, rfl⟩

theorem Nonce.ofBase64_eq_ok_iff {text : String} {nonce : Nonce} :
    ofBase64 text = .ok nonce ↔ text = nonce.toBase64 := by
  refine ⟨fun h => ?_, fun h => h ▸ ofBase64_toBase64 nonce⟩
  unfold ofBase64 at h
  split at h
  · cases h
  · rename_i bytes hd
    split at h
    · rename_i hb
      cases h
      rw [Base64.decode_eq_ok_iff.1 hd, FixedBytes.ofBytes?_eq_some_iff.1 hb]
      rfl
    · cases h

theorem Failure.ofParts_eq_ok_iff {action : Action} {code : Option Json} {message : String}
    {failure : Failure} :
    ofParts action code message = .ok failure ↔
      failure.action = action ∧ failure.code.Told code ∧ failure.message = message := by
  obtain ⟨action', code', message'⟩ := failure
  cases code with
  | none =>
    constructor
    · intro h
      cases h
      exact ⟨rfl, .nothing, rfl⟩
    · rintro ⟨rfl, hc, rfl⟩
      cases hc
      rfl
  | some v =>
    refine bind_eq_ok.trans ⟨?_, ?_⟩
    · rintro ⟨c, hc, h⟩
      cases h
      exact ⟨rfl, ErrorCode.ofJson_eq_ok_iff.1 hc, rfl⟩
    · rintro ⟨rfl, hc, rfl⟩
      exact ⟨_, ErrorCode.ofJson_eq_ok_iff.2 hc, rfl⟩

theorem Signal.eq_action_of_ofAction? {action : Action} {s : Signal} (h : ofAction? action = some s) :
    action = s.action := by
  cases action <;> cases h <;> rfl

theorem Signal.isSignal_of_ofAction? {action : Action} (h : ofAction? action = none) :
    action.isSignal = false := by
  cases action <;> first | rfl | cases h

namespace Inbound

theorem readNonce_eq_ok_iff {text : Option String} {nonce : Nonce} :
    readNonce text = .ok nonce ↔ text = some nonce.toBase64 := by
  cases text with
  | none => exact ⟨nofun, nofun⟩
  | some text =>
    rw [Option.some.injEq, ← Nonce.ofBase64_eq_ok_iff, readNonce]
    split <;> simp_all [malformed]

variable {fields : InboundFields} {inbound : Inbound}

/-- A message that is complete with its nonce. -/
theorem bind_readNonce_eq_ok_iff {nonce : Option String} {make : Nonce → Inbound} :
    (readNonce nonce >>= fun n => pure (make n)) = .ok inbound ↔
      ∃ n : Nonce, nonce = some n.toBase64 ∧ inbound = make n := by
  rw [bind_eq_ok]
  constructor
  · rintro ⟨n, hn, h⟩
    cases h
    exact ⟨n, readNonce_eq_ok_iff.1 hn, rfl⟩
  · rintro ⟨n, hn, rfl⟩
    exact ⟨n, readNonce_eq_ok_iff.2 hn, rfl⟩

theorem readKeyExchange_eq_ok_iff :
    readKeyExchange fields = .ok inbound ↔ fields.message = none ∧ ∃ publicKey nonce,
      fields.publicKey = Option.map Base64.encode publicKey ∧
        fields.nonce = some (Nonce.toBase64 nonce) ∧ inbound = .keyExchange
          ⟨(fields.success.map Json.truthy).getD false, publicKey, fields.version, nonce⟩ := by
  obtain ⟨action, publicKey, nonce, message, success, version, error, errorCode⟩ := fields
  cases message with
  | some => exact ⟨nofun, nofun⟩
  | none =>
    cases publicKey with
    | none =>
      refine bind_readNonce_eq_ok_iff.trans ⟨?_, ?_⟩
      · rintro ⟨n, hn, h⟩
        exact ⟨rfl, none, n, rfl, hn, h⟩
      · rintro ⟨-, key, n, hkey, hn, h⟩
        obtain rfl : key = none := Option.map_eq_none_iff.1 hkey.symm
        exact ⟨n, hn, h⟩
    | some text =>
      cases hd : Base64.decode text with
      | error fault =>
        simp only [readKeyExchange, hd]
        refine ⟨(fun h => by cases h), ?_⟩
        rintro ⟨-, key, n, hkey, -⟩
        obtain ⟨bytes, rfl, htext⟩ := Option.map_eq_some_iff.1 hkey.symm
        rw [Base64.decode_eq_ok_iff.2 htext.symm] at hd
        cases hd
      | ok bytes =>
        simp only [readKeyExchange, hd, Option.isSome_none, Bool.false_eq_true, if_false, pure_bind]
        refine bind_readNonce_eq_ok_iff.trans ⟨?_, ?_⟩
        · rintro ⟨n, hn, h⟩
          exact ⟨trivial, some bytes, n, congrArg some (Base64.decode_eq_ok_iff.1 hd), hn, h⟩
        · rintro ⟨-, key, n, hkey, hn, h⟩
          obtain ⟨bytes', rfl, htext⟩ := Option.map_eq_some_iff.1 hkey.symm
          obtain rfl : bytes' = bytes :=
            Except.ok.inj ((Base64.decode_eq_ok_iff.2 htext.symm).symm.trans hd)
          exact ⟨n, hn, h⟩

theorem readBoxed_eq_ok_iff {action : Action} :
    readBoxed action fields = .ok inbound ↔ fields.publicKey = none ∧ ∃ box nonce,
      fields.message = some (Base64.encode box) ∧ fields.nonce = some (Nonce.toBase64 nonce) ∧
        inbound = .encrypted ⟨action, nonce, box⟩ := by
  obtain ⟨_, publicKey, nonce, message, success, version, error, errorCode⟩ := fields
  cases publicKey with
  | some => exact ⟨nofun, nofun⟩
  | none =>
    cases message with
    | none => exact ⟨nofun, nofun⟩
    | some text =>
      cases hd : Base64.decode text with
      | error fault =>
        simp only [readBoxed, hd]
        refine ⟨(fun h => by cases h), ?_⟩
        rintro ⟨-, box, n, htext, -⟩
        rw [Base64.decode_eq_ok_iff.2 (Option.some.inj htext)] at hd
        cases hd
      | ok bytes =>
        simp only [readBoxed, hd, Option.isSome_none, Bool.false_eq_true, if_false, pure_bind]
        refine bind_readNonce_eq_ok_iff.trans ⟨?_, ?_⟩
        · rintro ⟨n, hn, h⟩
          exact ⟨trivial, bytes, n, congrArg some (Base64.decode_eq_ok_iff.1 hd), hn, h⟩
        · rintro ⟨-, box, n, htext, hn, h⟩
          obtain rfl : box = bytes :=
            Except.ok.inj ((Base64.decode_eq_ok_iff.2 (Option.some.inj htext)).symm.trans hd)
          exact ⟨n, hn, h⟩

/-! ## Whole messages -/

theorem exists_action_of_ofFields (h : ofFields fields = .ok inbound) :
    ∃ action : Action, fields.action = some action.wireName := by
  unfold ofFields at h
  cases hname : fields.action with
  | none =>
    rw [hname] at h
    cases h
  | some name =>
    simp only [hname, pure_bind] at h
    cases haction : Action.ofName? name with
    | none =>
      rw [haction] at h
      cases h
    | some action => exact ⟨action, congrArg some (Action.ofName?_eq_some_iff.1 haction)⟩

theorem ofFields_of_action {action : Action} (h : fields.action = some action.wireName) :
    ofFields fields =
      match Signal.ofAction? action with
      | some s => .ok (.signal s)
      | none =>
        if fields.error.isSome || fields.errorCode.isSome then
          Failure.ofParts action fields.errorCode (fields.error.getD "") >>= fun failure =>
            pure (.failure failure)
        else if action = .changePublicKeys then readKeyExchange fields
        else readBoxed action fields := by
  have hname : Action.ofName? action.wireName = some action := Action.ofName?_eq_some_iff.2 rfl
  simp only [ofFields, h, hname, pure_bind]
  rfl

/-- Known members are what is told under their names. -/
structure Tells (told : String → Option Json) (fields : InboundFields) : Prop where
  action : told "action" = fields.action.map .string
  publicKey : told "publicKey" = fields.publicKey.map .string
  nonce : told "nonce" = fields.nonce.map .string
  message : told "message" = fields.message.map .string
  success : told "success" = fields.success
  version : told "version" = fields.version.map .string
  error : told "error" = fields.error.map .string
  errorCode : told "errorCode" = fields.errorCode

theorem text_iff {a : Option Json} {b : Option String} (h : a = b.map .string) {c : Option String} :
    a = c.map .string ↔ b = c := by
  subst h
  cases b <;> cases c <;> simp

theorem some_text_iff {a : Option Json} {b : Option String} (h : a = b.map .string) {text : String} :
    a = some (.string text) ↔ b = some text := text_iff h (c := some text)

theorem no_text_iff {a : Option Json} {b : Option String} (h : a = b.map .string) :
    a = none ↔ b = none := text_iff h (c := none)

theorem made_of_ofFields {told : String → Option Json} (h : Tells told fields)
    (hdecoded : ofFields fields = .ok inbound) : Made told inbound := by
  obtain ⟨action, ha⟩ := exists_action_of_ofFields hdecoded
  have haction := (some_text_iff h.action).2 ha
  rw [ofFields_of_action ha] at hdecoded
  cases hs : Signal.ofAction? action with
  | some s =>
    rw [hs] at hdecoded
    cases hdecoded
    obtain rfl : action = s.action := Signal.eq_action_of_ofAction? hs
    exact .signal haction
  | none =>
    have hsignal : action.isSignal = false := Signal.isSignal_of_ofAction? hs
    simp only [hs] at hdecoded
    split at hdecoded
    · rename_i hrefused
      obtain ⟨failure, hf, hok⟩ := bind_eq_ok.1 hdecoded
      cases hok
      obtain ⟨rfl, hcode, hmessage⟩ := Failure.ofParts_eq_ok_iff.1 hf
      obtain ⟨action, code, message⟩ := failure
      subst hmessage
      refine .failure haction hsignal h.error ?_ (h.errorCode ▸ hcode)
      rw [Ne, no_text_iff h.error, h.errorCode]
      simpa [Option.isSome_iff_ne_none] using hrefused
    · rename_i hrefused
      simp only [Bool.or_eq_true, not_or, Option.not_isSome_iff_eq_none] at hrefused
      have herror := (no_text_iff h.error).2 hrefused.1
      have hcode := h.errorCode.trans hrefused.2
      split at hdecoded
      · rename_i hkeys
        subst hkeys
        obtain ⟨hmessage, key, nonce, hkey, hnonce, rfl⟩ := readKeyExchange_eq_ok_iff.1 hdecoded
        have hpublic : told "publicKey" = key.map fun key => .string (Base64.encode key) := by
          rw [h.publicKey, hkey, Option.map_map]
          rfl
        have hsuccess : (fields.success.map Json.truthy).getD false =
            (told "success").any Json.truthy := by
          rw [h.success]
          cases fields.success <;> rfl
        rw [hsuccess]
        exact .keyExchange haction herror hcode ((no_text_iff h.message).2 hmessage) hpublic h.version
          ((some_text_iff h.nonce).2 hnonce)
      · rename_i hkeys
        obtain ⟨hkey, box, nonce, hbox, hnonce, rfl⟩ := readBoxed_eq_ok_iff.1 hdecoded
        have hsend : Outbound.sendable action = true := by
          simp [Outbound.sendable, hkeys, hsignal]
        exact .encrypted haction hsend herror hcode ((no_text_iff h.publicKey).2 hkey)
          ((some_text_iff h.message).2 hbox) ((some_text_iff h.nonce).2 hnonce)

theorem ofFields_of_made {told : String → Option Json} (h : Tells told fields)
    (hmade : Made told inbound) : ofFields fields = .ok inbound := by
  cases hmade with
  | @signal s ha =>
    rw [ofFields_of_action ((some_text_iff h.action).1 ha), Signal.ofAction?_action]
  | @failure action code message ha hs he hsome hc =>
    have hrefused : (fields.error.isSome || fields.errorCode.isSome) = true := by
      rw [Ne, no_text_iff h.error, h.errorCode] at hsome
      simpa [Option.isSome_iff_ne_none] using hsome
    have hparts : Failure.ofParts action fields.errorCode (fields.error.getD "") =
        .ok ⟨action, code, message.getD ""⟩ := by
      rw [(text_iff h.error).1 he, ← h.errorCode]
      exact Failure.ofParts_eq_ok_iff.2 ⟨rfl, hc, rfl⟩
    rw [ofFields_of_action ((some_text_iff h.action).1 ha), Signal.ofAction?_eq_none hs]
    simp only [hrefused, if_true, hparts]
    rfl
  | @keyExchange key version nonce ha he hc hm hk hv hn =>
    have hkey : told "publicKey" = (key.map Base64.encode).map .string := by
      rw [hk, Option.map_map]
      rfl
    have hsuccess : (told "success").any Json.truthy =
        (fields.success.map Json.truthy).getD false := by
      rw [h.success]
      cases fields.success <;> rfl
    rw [ofFields_of_action ((some_text_iff h.action).1 ha), Signal.ofAction?_eq_none rfl]
    simp only [(no_text_iff h.error).1 he, ← h.errorCode, hc, Option.isSome_none, Bool.or_self,
      Bool.false_eq_true, if_false, if_true]
    rw [hsuccess, ← (text_iff h.version).1 hv]
    exact readKeyExchange_eq_ok_iff.2 ⟨(no_text_iff h.message).1 hm, key, nonce,
      (text_iff h.publicKey).1 hkey, (some_text_iff h.nonce).1 hn, rfl⟩
  | @encrypted action nonce box ha hsend he hc hk hm hn =>
    simp only [Outbound.sendable, Bool.and_eq_true, decide_eq_true_eq, Bool.not_eq_true'] at hsend
    rw [ofFields_of_action ((some_text_iff h.action).1 ha), Signal.ofAction?_eq_none hsend.2]
    simp only [(no_text_iff h.error).1 he, ← h.errorCode, hc, Option.isSome_none, Bool.or_self,
      Bool.false_eq_true, if_false, hsend.1]
    exact readBoxed_eq_ok_iff.2 ⟨(no_text_iff h.publicKey).1 hk, box, nonce,
      (some_text_iff h.message).1 hm, (some_text_iff h.nonce).1 hn, rfl⟩

/-- If every member that has to be a text is one, the known members are what is told. -/
theorem tells_ofMembers {members : Members}
    (h : ∀ name ∈ textNames, ∀ v, told members name = some v → ∃ s, v = .string s) :
    Tells (told members) (ofMembers members) := by
  have htext (name : String) (hname : name ∈ textNames) :
      told members name = (text? members name).map .string := by
    rw [text?]
    cases htold : told members name with
    | none => rfl
    | some v =>
      obtain ⟨s, rfl⟩ := h name hname v htold
      rfl
  exact ⟨htext _ (by decide), htext _ (by decide), htext _ (by decide), htext _ (by decide), rfl,
    htext _ (by decide), htext _ (by decide), rfl⟩

theorem textual_iff {members : Members} (hn : (members.map (·.1)).Nodup) :
    Textual members ↔ ∀ name ∈ textNames, ∀ v, told members name = some v → ∃ s, v = .string s := by
  have hadmits {name : String} {v : Json} (hname : name ∈ textNames) :
      InboundFields.admits name v = true ↔ ∀ w, counted v = some w → ∃ s, w = .string s := by
    simp only [InboundFields.admits, hname, not_true_eq_false, decide_false, Bool.false_or]
    cases v <;> simp [counted, Json.asString?]
  constructor
  · intro h name hname v hv
    obtain ⟨w, hw, hc⟩ := Option.bind_eq_some_iff.1 hv
    exact (hadmits hname).1 (h _ ((Table.get?_eq_some_iff hn).1 hw)) v hc
  · rintro h ⟨name, v⟩ hm
    by_cases hname : name ∈ textNames
    · refine (hadmits hname).2 fun w hw => h name hname w ?_
      rw [told, (Table.get?_eq_some_iff hn).2 hm]
      exact hw
    · simp [InboundFields.admits, hname]

/-- A text that is an object is decoded to the message that its known members make, if those that have to be
texts are texts; in all other cases it is malformed. The order of the members does not matter, nor do those
with other names. -/
theorem decode_object {text : String} {before object after : Bytes} {members : Members}
    (ht : Utf8.encode text = before ++ (object ++ after)) (hb : Json.Grammar.Blanks before)
    (ha : Json.Grammar.Blanks after) (h : Json.Grammar.Shows known Json.depthLimit members object)
    (hn : (members.map (·.1)).Nodup) :
    (∀ inbound, decode text = .ok inbound ↔
      (∀ name ∈ textNames, ∀ v, told members name = some v → ∃ s, v = .string s) ∧
        Made (told members) inbound) ∧
    ((∀ inbound, ¬ ((∀ name ∈ textNames, ∀ v, told members name = some v → ∃ s, v = .string s) ∧
      Made (told members) inbound)) → ∃ cause, decode text = .error (.malformedMessage cause)) := by
  have hread := InboundFields.read_of_shows ht hb ha h hn
  rw [textual_iff hn] at hread
  have hiff (inbound : Inbound) : decode text = .ok inbound ↔
      (∀ name ∈ textNames, ∀ v, told members name = some v → ∃ s, v = .string s) ∧
        Made (told members) inbound := by
    by_cases htext : ∀ name ∈ textNames, ∀ v, told members name = some v → ∃ s, v = .string s
    · have htells := tells_ofMembers htext
      rw [decode, hread.1 htext]
      exact ⟨fun h => ⟨htext, made_of_ofFields htells h⟩, fun h => ofFields_of_made htells h.2⟩
    · obtain ⟨misfit, hmisfit⟩ := hread.2 htext
      rw [decode, hmisfit]
      exact ⟨(fun h => by cases h), fun h => absurd h.1 htext⟩
  refine ⟨hiff, fun hnone => ?_⟩
  cases hdecoded : decode text with
  | ok inbound => exact absurd ((hiff inbound).1 hdecoded) (hnone inbound)
  | error e =>
    obtain ⟨cause, rfl⟩ := decode_eq_error hdecoded
    exact ⟨cause, rfl⟩

/-- A refusal among other members, with its code in a string and a null in place of its text. -/
theorem decode_object_refusal :
    decode "\x7b\"error\":null,\"hint\":[\x7b\x7d],\"errorCode\":\" 6\",\"action\":\"associate\"\x7d" =
      .ok (.failure ⟨.associate, .actionCancelledOrDenied, ""⟩) := by
  have hblanks : Json.Grammar.Blanks [] := List.forall_mem_nil _
  have hnull : Json.Grammar.Denotes 126 (.item .null) [0x6E, 0x75, 0x6C, 0x6C] :=
    .item hblanks .null hblanks
  have herror : Json.Grammar.Entry known 126 (some ("error", .null)) _ :=
    .kept (by decide) (Json.named_quote "error" _) hnull
  have hlist : Json.Grammar.Derives .item [0x5B, 0x7B, 0x7D, 0x5D] :=
    .item hblanks (.list (.lastItem (.item hblanks (.emptyObject hblanks) hblanks))) hblanks
  have hhint : Json.Grammar.Entry known 126 none _ :=
    .passed (by decide) (Json.named_quote "hint" _) hlist
  have hcode : Json.Grammar.Entry known 126 (some ("errorCode", .string " 6")) _ :=
    .kept (by decide) (Json.named_quote "errorCode" _) (Json.denotes_quote 126 " 6")
  have haction : Json.Grammar.Entry known 126 (some ("action", .string "associate")) _ :=
    .kept (by decide) (Json.named_quote "action" _) (Json.denotes_quote 126 "associate")
  have hshows := Json.Grammar.Shows.members (.more herror (.more hhint (.more hcode (.last haction))))
  have hcode : ErrorCode.actionCancelledOrDenied.Told (some (.string " 6")) :=
    @ErrorCode.Told.text " 6" [' '] ['6'] [] 6 rfl (List.forall_mem_singleton.2 (by decide))
      (List.forall_mem_nil _) (.unsigned (List.forall_mem_singleton.2 (by decide))) (by decide)
      (by decide)
  refine ((@decode_object _ [] _ [] _ ?_ hblanks hblanks hshows ?_).1 _).2 ⟨?_, ?_⟩
  · decide +kernel
  · decide
  · exact (textual_iff (by decide)).1 (by decide)
  · exact @Made.failure _ _ _ none rfl rfl rfl (.inr nofun) hcode

end Inbound

end VaultLink
