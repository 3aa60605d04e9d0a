import VaultLink.Proofs.Client.Reception
import VaultLink.Proofs.Client.Standing
import VaultLink.Proofs.Proxy.Answering
import VaultLink.Proofs.Session.Handshake
import VaultLink.Proofs.Wire.Reassembly

/-!
# Exchanges with a prompted proxy

A proxy can be prompted to meet the client's next message with signals and then a message of its own
(`prompt`). A client that rests between its requests (`Idle`) receives what the proxy was prompted with
(`exists_receives_prompt`): a box of a confirming reply is accepted (`exists_roundTrip_boxed`), a refusal
fails the request (`exists_roundTrip_refused`), and a key that is not the client's own establishes the
session (`exists_introduced`).
-/

namespace VaultLink

open Json (AreTexts)

namespace Link

/-- Signals and then an object of strings, each of them in one piece. -/
def announced (signals : List Signal) (last : Json.Members) : List Arrival :=
  signals.map (fun s => .data (Json.render (.object (Inbound.signalMembers s)))) ++
    [.data (Json.render (.object last))]

theorem receive_object {text : String} (h : Json.Grammar.IsObject (Utf8.encode text)) {link : Link}
    {more : List Arrival} (hb : link.buffer = [])
    (ha : link.arrivals = .data (Utf8.encode text) :: more) (deadline : Option Instant) :
    link.receive deadline = (.message text, { link with arrivals := more }) := by
  have hhand : atHand (Utf8.encode text) = .settled (.message text) [] := by
    have hsplit := Frame.split_object (List.forall_mem_nil _) h []
    rw [List.nil_append, List.append_nil] at hsplit
    rw [atHand, hsplit]
  have hread : readFrom deadline [] link.clock (.data (Utf8.encode text) :: more) =
      ⟨.message text, [], more, link.clock⟩ := by
    have hempty : atHand [] = .wanting [] := rfl
    rw [readFrom]
    simp only [hempty, List.nil_append]
    cases more <;> rw [readFrom] <;> simp only [hhand]
  rw [receive, hb, ha, hread, ← hb]

theorem receive_render {members : Json.Members} (h : AreTexts members) {link : Link}
    {more : List Arrival} (hb : link.buffer = [])
    (ha : link.arrivals = .data (Json.render (.object members)) :: more) (deadline : Option Instant) :
    ∃ text, Utf8.encode text = Json.render (.object members) ∧
      link.receive deadline = (.message text, { link with arrivals := more }) := by
  obtain ⟨text, ht⟩ := Json.isText_render h
  have hobject := Json.isObject_render h
  rw [ht] at hobject ha
  exact ⟨text, ht.symm, receive_object hobject hb ha deadline⟩

/-- A link brings what was announced on it. -/
theorem exists_brings_announced {last : Json.Members} {inbound : Inbound} (hl : AreTexts last)
    (hdec : ∀ text, Utf8.encode text = Json.render (.object last) →
      Inbound.decode text = .ok inbound)
    (hs : ∀ s, inbound ≠ .signal s) (deadline : Instant) (signals : List Signal) (link : Link)
    (hb : link.buffer = []) (ha : link.arrivals = announced signals last) :
    ∃ text, Inbound.decode text = .ok inbound ∧
      link.Brings deadline signals (.message text) { link with arrivals := [] } := by
  induction signals generalizing link with
  | nil =>
    obtain ⟨text, ht, hr⟩ := receive_render hl hb ha (some deadline)
    refine ⟨text, hdec text ht, .last hr ?_⟩
    simp only [Received.signal?, hdec text ht]
    cases inbound with
    | signal s => exact absurd rfl (hs s)
    | keyExchange | encrypted | failure => rfl
  | cons s signals ih =>
    obtain ⟨text, ht, hr⟩ := receive_render AreTexts.nil.cons hb ha (some deadline)
    obtain ⟨last, hlast, hbrings⟩ := ih { link with arrivals := announced signals last } hb rfl
    refine ⟨last, hlast, .signal hr ?_ hbrings⟩
    simp only [Received.signal?, Inbound.decode_signal ht]

end Link

namespace Registry

/-- A registry in memory with one record. -/
def alone (record : Association) : Registry MemoryStore :=
  file record ⟨[], {}⟩

theorem lookup_alone (record : Association) :
    (alone record).lookup record.databaseId = some record :=
  (lookup_file record record.databaseId _).trans (if_pos rfl)

end Registry

namespace Client

variable {σ : Type} {c d : Client σ} {peer : PublicKey} {place : Nat}

/-- A reply that reports success and names neither an action nor a nonce confirms every request. -/
theorem Confirms.of_unnamed {body : Json.Members} (ha : body.get? "action" = none)
    (hn : body.get? "nonce" = none) (hs : body.get? "success" = some (.string "true"))
    (action : Action) (nonce : Nonce) : Confirms action nonce body where
  action _ hv := by cases ha.symm.trans hv
  nonce _ hv := by cases hn.symm.trans hv
  success := ⟨_, hs, by decide⟩

/-- The proxy will meet the next message with signals and then an object of strings. -/
def prompt (signals : List Signal) (last : Json.Members) : Move σ :=
  .proxy [] 0 none [fun _ => Link.announced signals last]

/-- Every wait of a configuration ends before the clock does. -/
def Timely (config : Config) : Prop :=
  ∀ action triggerUnlock, timeoutFor config action triggerUnlock < Instant.beyond

/-- A configuration whose waits end. -/
def usual : Config := ⟨"socket", "store", .ofSeconds 5, .ofSeconds 120, false⟩

theorem timely_usual : Timely usual := by
  intro action triggerUnlock
  unfold timeoutFor
  split <;> decide

/-- A client that rests between its requests: its session is established, the next nonce has this
number, and no bytes are at hand. -/
structure Idle (c : Client σ) (peer : PublicKey) (place : Nat) : Prop where
  closed_eq : c.closed = false
  requirePeer_eq : c.session.requirePeer = .ok peer
  position_eq : c.session.nonces.position = place
  buffer_eq : c.link.buffer = []
  timely : Timely c.config

theorem Idle.congr (h : Idle c peer place) (ho : d.closed = c.closed) (hs : d.session = c.session)
    (hb : d.link.buffer = c.link.buffer) (hg : d.config = c.config) : Idle d peer place where
  closed_eq := ho.trans h.closed_eq
  requirePeer_eq := hs ▸ h.requirePeer_eq
  position_eq := hs ▸ h.position_eq
  buffer_eq := hb.trans h.buffer_eq
  timely := hg ▸ h.timely

/-- The number of a nonce tells it. -/
theorem ofNatLE_of_toNatLE {nonce : Nonce} {n : Nat} (h : nonce.toNatLE = n) :
    nonce = .ofNatLE 24 n := by
  have hlt : nonce.toNatLE < Nat.pow 256 24 := nonce.toNatLE_lt
  refine FixedBytes.toNatLE_inj ?_
  show nonce.toNatLE = Bytes.toNatLE (Bytes.ofNatLE 24 n)
  rw [Bytes.toNatLE_ofNatLE, ← h]
  exact (Nat.mod_eq_of_lt hlt).symm

theorem deadline?_of_clock {wait : Duration} (hc : c.link.clock = 0) (hw : wait < Instant.beyond) :
    c.deadline? wait = some wait := by
  rw [deadline?, hc, Nat.zero_add, if_pos hw]

variable [AssociationStore σ]

theorem Idle.prompt (h : Idle c peer place) (signals : List Signal) (last : Json.Members) :
    Idle ((prompt signals last).apply c) peer place :=
  h.congr rfl rfl rfl rfl

/-- A link that was prompted takes a message and holds what was announced. -/
theorem send_prompt {signals : List Signal} {last : Json.Members} {message : Bytes} {link : Link}
    (h : ((prompt signals last).apply c).link.send message = (.ok (), link)) :
    link = { c.link with
      arrivals := Link.announced signals last, clock := 0, writeFault := none, answers := [],
      written := c.link.written ++ [message] } := by
  cases h
  rfl

/-- What the proxy was prompted with is what a request meets. -/
theorem exists_receives_prompt (h : Idle c peer place) (hp : place + 2 ≤ Nonce.count)
    {action : Action} (ha : Outbound.sendable action = true) {last : Json.Members}
    (hl : AreTexts last) {inbound : Inbound}
    (hdec : ∀ text, Utf8.encode text = Json.render (.object last) →
      Inbound.decode text = .ok inbound)
    (hi : inbound.action = action) (fields : Json.Members) (triggerUnlock : Bool)
    (signals : List Signal) :
    ∃ request text d, ((prompt signals last).apply c).Receives action fields triggerUnlock request
        signals text d ∧
      Inbound.decode text = .ok inbound ∧ request.replyNonce = .ofNatLE 24 (place + 1) ∧
      Hears signals c d ∧ Idle d peer (place + 2) := by
  obtain ⟨version, hs⟩ := Session.requirePeer_eq_ok h.requirePeer_eq
  have hsubmit : ∃ request sent, submit action fields triggerUnlock ((prompt signals last).apply c) =
      .ok request sent :=
    exists_submit_eq_ok (c := (prompt signals last).apply c) hs (h.position_eq ▸ hp) ha rfl
  obtain ⟨request, sent, hw⟩ := hsubmit
  have hsub := submit_eq_ok hw
  obtain ⟨bytes, -, hsend⟩ := hsub.written
  have hlink := send_prompt hsend
  have hns : ∀ s, inbound ≠ .signal s := by
    rintro s rfl
    rw [← hi] at ha
    cases s <;> cases ha
  obtain ⟨text, ht, hb⟩ := Link.exists_brings_announced hl hdec hns
    (timeoutFor c.config action triggerUnlock) signals sent.link
    (by rw [hlink]; exact h.buffer_eq) (by rw [hlink])
  have hdeadline : sent.deadline? (timeoutFor c.config action triggerUnlock) =
      some (timeoutFor c.config action triggerUnlock) :=
    deadline?_of_clock (by rw [hlink]) (h.timely action triggerUnlock)
  have hreceives : ((prompt signals last).apply c).Receives action fields triggerUnlock request
      signals text (sent.heard signals { sent.link with arrivals := [] }) :=
    ⟨(h.prompt signals last).closed_eq, sent, _, _, hw, hdeadline, hb, rfl⟩
  obtain ⟨nonces, hsession⟩ := hsub.session_eq
  refine ⟨request, text, _, hreceives, ht, ofNatLE_of_toNatLE ?_, ?_, ?_⟩
  · rw [hsub.reserves.reply_toNatLE]
    exact congrArg (· + 1) h.position_eq
  · obtain ⟨link, nonces, journal, hd⟩ := hreceives.hears
    exact ⟨link, nonces, journal, hd⟩
  · have hsent := hsub.client_eq
    refine ⟨?_, ?_, ?_, ?_, ?_⟩
    · show sent.closed = false
      rw [hsent]
      exact h.closed_eq
    · show sent.session.requirePeer = .ok peer
      rw [hsession]
      exact h.requirePeer_eq
    · show sent.session.nonces.position = place + 2
      rw [hsub.reserves.position_eq]
      exact congrArg (· + 2) h.position_eq
    · show sent.link.buffer = []
      rw [hlink]
      exact h.buffer_eq
    · show Timely sent.config
      rw [hsent]
      exact h.timely

/-- The box in which the proxy replies to the next request about an action. -/
def boxed (c : Client σ) (peer : PublicKey) (place : Nat) (action : Action) (body : Json.Members) :
    BoxedReply :=
  let nonce : Nonce := .ofNatLE 24 (place + 1)
  ⟨action, nonce, Box.encrypt c.session.keys peer nonce (Json.render (.object body))⟩

theorem areTexts_boxedMembers (reply : BoxedReply) : AreTexts (Inbound.boxedMembers reply) :=
  AreTexts.nil.cons.cons.cons

/-- A client opens the box that comes for its request. -/
theorem exists_opens_prompt (h : Idle c peer place) (hp : place + 2 ≤ Nonce.count)
    {action : Action} (ha : Outbound.sendable action = true) {body : Json.Members}
    (hb : AreTexts body) (ho : body.Ordered) (fields : Json.Members) (triggerUnlock : Bool)
    (signals : List Signal) :
    ∃ last request text d,
      ((prompt signals last).apply c).Receives action fields triggerUnlock request signals text d ∧
      request.replyNonce = .ofNatLE 24 (place + 1) ∧
      Opens c.session.keys peer action request.replyNonce text body ∧
      Hears signals c d ∧ Idle d peer (place + 2) := by
  have hreads (text : String)
      (ht : Utf8.encode text =
        Json.render (.object (Inbound.boxedMembers (boxed c peer place action body)))) :
      Inbound.decode text = .ok (.encrypted (boxed c peer place action body)) :=
    Inbound.decode_boxed ha ht
  obtain ⟨request, text, d, hr, hdec, hnonce, hears, hidle⟩ := exists_receives_prompt h hp ha
    (areTexts_boxedMembers _) hreads rfl fields triggerUnlock signals
  refine ⟨_, request, text, d, hr, hnonce, ?_, hears, hidle⟩
  rw [hnonce]
  exact ⟨_, _, hdec, Box.decrypt_encrypt _ _ _ _,
    (Json.parse_render hb).trans (by rw [Json.Members.ofList_of_ordered ho])⟩

/-- A box of a confirming reply is accepted. -/
theorem exists_roundTrip_boxed (h : Idle c peer place) (hp : place + 2 ≤ Nonce.count)
    {action : Action} (ha : Outbound.sendable action = true) {body : Json.Members}
    (hb : AreTexts body) (ho : body.Ordered)
    (hc : ∀ nonce, Confirms action nonce body) (fields : Json.Members) (triggerUnlock : Bool)
    (signals : List Signal) :
    ∃ last d, roundTrip action fields triggerUnlock ((prompt signals last).apply c) = .ok body d ∧
      Hears signals c d ∧ Idle d peer (place + 2) := by
  obtain ⟨last, request, text, d, hr, -, hopens, ⟨link, nonces, journal, rfl⟩, hidle⟩ :=
    exists_opens_prompt h hp ha hb ho fields triggerUnlock signals
  obtain ⟨reply, hset⟩ := settle_of_opens hidle.requirePeer_eq hopens
    (timeoutFor c.config action triggerUnlock)
  rw [confirms_iff.1 (hc _)] at hset
  have hround := roundTrip_of_receives hr
  refine ⟨last, _, hround.trans (closing_of_ok hset), ?_, ?_⟩
  · exact ⟨link, nonces, _, rfl⟩
  · exact hidle.congr rfl rfl rfl rfl

/-- A refusal in the open fails the request. -/
theorem exists_roundTrip_refused (h : Idle c peer place) (hp : place + 2 ≤ Nonce.count)
    {failure : Failure} (ha : Outbound.sendable failure.action = true) {code : String}
    (hcode : ErrorCode.ofJson (.string code) = .ok failure.code)
    (hopen : breaksStream failure.error = false) (fields : Json.Members) (triggerUnlock : Bool) :
    ∃ last d, roundTrip failure.action fields triggerUnlock ((prompt [] last).apply c) =
      .error failure.error d ∧ Hears [] c d ∧ Idle d peer (place + 2) := by
  have hsignal : failure.action.isSignal = false := by
    simp only [Outbound.sendable, Bool.and_eq_true, Bool.not_eq_true'] at ha
    exact ha.2
  have htexts : AreTexts (Inbound.refusalMembers failure code) := AreTexts.nil.cons.cons.cons
  obtain ⟨request, text, d, hr, hdec, -, ⟨link, nonces, journal, rfl⟩, hidle⟩ :=
    exists_receives_prompt h hp ha htexts (fun _ => Inbound.decode_refusal hsignal hcode) rfl fields
      triggerUnlock []
  have hround := roundTrip_of_receives hr
  rw [closing_of_error (settle_of_failure hdec _ _), hopen] at hround
  refine ⟨_, _, hround, ⟨link, nonces, journal, rfl⟩, ?_⟩
  exact hidle.congr rfl rfl rfl rfl

/-- The proxy will not meet the next message. -/
def silence : Move σ := .proxy [] 0 none []

/-- A request that the proxy does not meet times out, which closes the client. -/
theorem exists_roundTrip_silent (h : Idle c peer place) (hp : place + 2 ≤ Nonce.count)
    {action : Action} (ha : Outbound.sendable action = true) (fields : Json.Members)
    (triggerUnlock : Bool) :
    ∃ wait d, roundTrip action fields triggerUnlock (silence.apply c) =
      .error (.timeout (.noReply action wait)) { d with closed := true } ∧ Hears [] c d := by
  obtain ⟨version, hs⟩ := Session.requirePeer_eq_ok h.requirePeer_eq
  have hsubmit : ∃ request sent, submit action fields triggerUnlock (silence.apply c) =
      .ok request sent :=
    exists_submit_eq_ok (c := silence.apply c) hs (h.position_eq ▸ hp) ha rfl
  obtain ⟨request, sent, hw⟩ := hsubmit
  have hsub := submit_eq_ok hw
  obtain ⟨bytes, -, hsend⟩ := hsub.written
  have hlink : sent.link = { c.link with
      arrivals := [], clock := 0, writeFault := none, answers := [],
      written := c.link.written ++ [bytes] } := (congrArg Prod.snd hsend).symm
  have hdeadline : sent.deadline? (timeoutFor c.config action triggerUnlock) =
      some (timeoutFor c.config action triggerUnlock) :=
    deadline?_of_clock (by rw [hlink]) (h.timely action triggerUnlock)
  have hlate : (sent.link.receive (some (timeoutFor c.config action triggerUnlock))).1 = .late := by
    have hempty : Link.atHand [] = .wanting [] := rfl
    rw [Link.receive, hlink, h.buffer_eq, Link.readFrom]
    simp only [hempty, Link.idle]
  have hround := roundTrip_of_brings (c := silence.apply c) h.closed_eq hw hdeadline
    (.last (Prod.ext hlate rfl) rfl)
  obtain ⟨link, nonces, journal, hd⟩ := hsub.hears []
    (sent.link.receive (some (timeoutFor c.config action triggerUnlock))).2
  refine ⟨_, _, hround, ?_⟩
  exact ⟨link, nonces, journal, hd⟩

/-! ## The key exchange -/

/-- A key that is not the client's own establishes the session. -/
theorem shakeHands_prompt (ho : c.closed = false) (hi : c.session.handshake = .idle)
    (hp : place + 2 ≤ Nonce.count) (hplace : c.session.nonces.position = place)
    (hb : c.link.buffer = []) (ht : Timely c.config) (hne : peer ≠ c.session.keys.publicKey) :
    ∃ link session journal, shakeHands
        ((prompt [] (Inbound.keyMembers peer (.ofNatLE 24 (place + 1)))).apply c) =
          .ok () { c with link, session, journal } ∧
      Idle { c with link, session, journal } peer (place + 2) := by
  obtain ⟨bytes, link, reply, nonces, journal, hoffer, hsend, hreply, hnonces⟩ :=
    exists_offerKey_eq_ok
      (c := (prompt [] (Inbound.keyMembers peer (.ofNatLE 24 (place + 1)))).apply c) hi
      (hplace ▸ hp) rfl
  have hlink := send_prompt hsend
  obtain rfl : reply = .ofNatLE 24 (place + 1) :=
    ofNatLE_of_toNatLE (hreply.trans (congrArg (· + 1) hplace))
  have htexts : AreTexts (Inbound.keyMembers peer (.ofNatLE 24 (place + 1))) :=
    AreTexts.nil.cons.cons.cons.cons
  obtain ⟨text, hdec, hbrings⟩ := Link.exists_brings_announced htexts (fun _ => Inbound.decode_keys)
    (fun _ => by simp) c.config.requestTimeout [] link (by rw [hlink]; exact hb) (by rw [hlink])
  have haccept : Session.acceptKeyExchange
      { c.session with handshake := .keysSent (.ofNatLE 24 (place + 1)), nonces }
      (.ofNatLE 24 (place + 1))
      (.keyExchange ⟨true, some peer.bytes, none, .ofNatLE 24 (place + 1)⟩) = .ok (peer, none) :=
    Session.acceptKeyExchange_eq_ok_iff.2 ⟨_, rfl, rfl, rfl, rfl, hne, rfl⟩
  have htake := takeKey_of_accepted (c := { c with
      link, session := { c.session with handshake := .keysSent (.ofNatLE 24 (place + 1)), nonces },
      journal })
    (deadline?_of_clock (by rw [hlink]) (ht .getDatabaseHash false)) hbrings hdec rfl haccept
  have hopen : ((prompt [] (Inbound.keyMembers peer (.ofNatLE 24 (place + 1)))).apply c).closed =
      false := ho
  refine ⟨{ link with arrivals := [] },
    { c.session with handshake := .established peer none, nonces }, journal ++ [],
    (bind_of_ok (ensureOpen_of_open hopen) _).trans ((bind_of_ok hoffer _).trans htake),
    ho, rfl, ?_, ?_, ht⟩
  · exact hnonces.trans (congrArg (· + 2) hplace)
  · show link.buffer = []
    rw [hlink]
    exact hb

theorem run_prompt_call (moves : List (Move σ)) (signals : List Signal) (last : Json.Members)
    (operation : Operation) (c : Client σ) :
    run (moves ++ [prompt signals last, .call operation]) c =
      perform operation ((prompt signals last).apply (run moves c)) :=
  run_append moves _ c

theorem exists_key_ne (own : PublicKey) : ∃ peer : PublicKey, peer ≠ own := by
  by_cases h : own = ⟨.ofNatLE 32 0⟩
  · exact ⟨⟨.ofNatLE 32 1⟩, h ▸ (by decide)⟩
  · exact ⟨_, fun he => h he.symm⟩

/-- A new client that is met with a key that is not its own is idle after the key exchange. -/
theorem exists_introduced (registry : Registry σ) :
    ∃ last peer c, run [prompt [] last, .call .shakeHands] (new 0 usual registry (.ofBytes [])) = c ∧
      Idle c peer 2 ∧ c.registry = registry ∧ c.databaseHash = none ∧ c.association = .unknown := by
  obtain ⟨peer, hne⟩ := exists_key_ne (new 0 usual registry (.ofBytes [])).session.keys.publicKey
  have hplace : (new 0 usual registry (.ofBytes [])).session.nonces.position = 0 := rfl
  obtain ⟨link, session, journal, hshake, hidle⟩ :=
    shakeHands_prompt (c := new 0 usual registry (.ofBytes [])) rfl rfl (by decide) hplace rfl
      timely_usual hne
  have hrun := run_prompt_call [] [] (Inbound.keyMembers peer (.ofNatLE 24 (0 + 1))) .shakeHands
    (new 0 usual registry (.ofBytes []))
  have hperform {b d : Client σ} (h : shakeHands b = .ok () d) : perform .shakeHands b = d :=
    after_of_ok h
  exact ⟨_, peer, _, hrun.trans (hperform hshake), hidle, rfl, rfl, rfl⟩

/-! ## The current database -/

/-- A client that is told the hash of the open database knows it. -/
theorem exists_getDatabaseHash_prompt (h : Idle c peer place) (hp : place + 2 ≤ Nonce.count)
    (hash : String) :
    ∃ last d, getDatabaseHash false ((prompt [] last).apply c) = .ok hash d ∧
      Idle d peer (place + 2) ∧ d.registry = c.registry ∧ d.databaseHash = some hash ∧
      d.association = if c.databaseHash = some hash then c.association else .unknown := by
  have hbody : Table.Ordered [("hash", Json.string hash), ("success", .string "true")] :=
    Table.ordered_of_names (show ["hash", "success"].Pairwise (· < ·) by decide)
  have hconfirms (nonce : Nonce) : Confirms .getDatabaseHash nonce
      [("hash", .string hash), ("success", .string "true")] := .of_unnamed rfl rfl rfl _ _
  obtain ⟨last, d, hr, ⟨link, nonces, journal, rfl⟩, hidle⟩ :=
    exists_roundTrip_boxed h hp rfl AreTexts.nil.cons.cons hbody hconfirms [] false []
  have hget := getDatabaseHash_eq false ((prompt [] last).apply c)
  rw [hr] at hget
  exact ⟨_, _, hget, hidle.congr rfl rfl rfl rfl, rfl, rfl, rfl⟩

/-- A client can come to check any record that is kept alone. -/
theorem exists_checks (record : Association) :
    ∃ (moves : List (Move MemoryStore)) (peer : PublicKey) (c : Client MemoryStore),
      run moves (new 0 usual (.alone record) (.ofBytes [])) = c ∧ Idle c peer 4 ∧
        c.registry = .alone record ∧ c.databaseHash = some record.databaseId ∧
        ∀ signals last, Checks ((prompt signals last).apply c) record.databaseId record
          ((prompt signals last).apply c) := by
  obtain ⟨last, peer, b, rfl, hidle, hregistry, -, hb⟩ :=
    exists_introduced (Registry.alone record)
  obtain ⟨reply, c, hget, hidle', hregistry', hhash, ha⟩ :=
    exists_getDatabaseHash_prompt hidle (by decide) record.databaseId
  have hkept : c.registry = .alone record := hregistry'.trans hregistry
  have hperform {b d : Client MemoryStore} (h : getDatabaseHash false b = .ok record.databaseId d) :
      perform (.getDatabaseHash false) b = d := after_of_ok h
  refine ⟨[prompt [] last, .call .shakeHands] ++ [prompt [] reply, .call (.getDatabaseHash false)],
    peer, c, (run_prompt_call _ _ _ _ _).trans (hperform hget), hidle', hkept, hhash,
    fun signals last => ?_⟩
  refine .of_known hidle'.requirePeer_eq hhash ?_ ?_
  · show c.registry.lookup record.databaseId = some record
    rw [hkept]
    exact Registry.lookup_alone record
  · show c.association ≠ .validated
    rw [ha, hb, ite_self]
    decide

end Client

end VaultLink
