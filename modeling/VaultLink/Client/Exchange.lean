import VaultLink.Client.Basic

/-!
# Requests and replies

A request is written, and then the reply to it is awaited up to a deadline; signals that come in
between are taken and do not count. A reply is good only if it answers this very request.

* `Client.awaitReply`: waits for the reply to an action;
* `Client.nextEvent`: waits for a signal while no request is under way;
* `Client.offerKey`, `Client.takeKey`: the two ends of the key exchange;
* `Client.submit`, `Client.settle`: the two ends of an encrypted request;
* `Client.roundTrip`: an encrypted request and its reply.
-/

namespace VaultLink

/-- The first point in time that the clock cannot show. -/
def Instant.beyond : Instant := Duration.ofSeconds (Nat.pow 2 63)

namespace Client

variable {σ : Type}

/-- Waits for the reply to an action. Each message takes one from `fuel`; the number of bytes at
hand or under way is enough. -/
def awaitFrom (action : Action) (wait : Duration) (deadline : Instant) : (fuel : Nat) → Run σ Inbound
  | 0 => throw (.timeout (.noReply action wait))
  | fuel + 1 => do
    let (received, link) := (← get).link.receive (some deadline)
    modify fun c => { c with link }
    match received with
    | .failed e => throw e
    | .late | .never => throw (.timeout (.noReply action wait))
    | .message text =>
      match ← ofExcept (Inbound.decode text) with
      | .signal s => do
        takeSignal s
        awaitFrom action wait deadline fuel
      | inbound =>
        if inbound.action = action then return inbound
        else throw (.protocol (.otherAction action inbound.action))

/-- Waits for the reply to an action, at most as long as given. -/
def awaitReply (action : Action) (wait : Duration) : Run σ Inbound := do
  let link := (← get).link
  let deadline := link.clock + wait
  if Instant.beyond ≤ deadline then throw .deadlineOverflow
  awaitFrom action wait deadline (link.volume + 1)

/-- Waits for a signal and passes other messages over. Each message takes one from `fuel`. Nothing
is answered if nothing more will arrive. -/
def nextEventFrom : (fuel : Nat) → Run σ (Option Signal)
  | 0 => return none
  | fuel + 1 => do
    let (received, link) := (← get).link.receive none
    modify fun c => { c with link }
    match received with
    | .failed e => closing (throw e)
    | .late | .never => return none
    | .message text =>
      match ← ofExcept (Inbound.decode text) with
      | .signal s => do
        takeSignal s
        return some s
      | _ => nextEventFrom fuel

/-- Waits for a signal while no request is under way. -/
def nextEvent : Run σ (Option Signal) := do
  ensureOpen
  nextEventFrom ((← get).link.volume + 1)

/-- The error of a key exchange whose reply was not received: a reply in the wrong form fails the
key exchange. -/
def handshakeError : Error → Error
  | .malformedMessage cause => .handshakeFailed (.malformed cause)
  | .protocol cause => .handshakeFailed (.breach cause)
  | e => e

/-- Makes the message that starts the key exchange and writes it. -/
def offerKey : Run σ Unit := do
  let request ← onSession Session.begin
  let bytes ← ofExcept request.encode
  closing (onLink (Link.send bytes))
  record (.sent request)

/-- Waits for the proxy's public key and takes it. -/
def takeKey : Run σ Unit := do
  let wait := (← get).config.requestTimeout
  let reply ← tryCatch (closing (awaitReply .changePublicKeys wait)) fun e => do
    modify fun c => { c with session := c.session.reject }
    throw (handshakeError e)
  onSession (Session.complete reply)

/-- Exchanges public keys with the proxy. -/
def shakeHands : Run σ Unit := do
  ensureOpen
  offerKey
  takeKey

/-- How long the reply to a request may take. -/
def timeoutFor (config : Config) (action : Action) (triggerUnlock : Bool) : Duration :=
  if triggerUnlock || action.promptsUser then config.interactiveTimeout else config.requestTimeout

/-- Fails unless a member, if it is there, is the given text; the error is told of what it is. -/
def checkMember (body : Json.Members) (name text : String) (breach : Json → Breach) :
    Except Error Unit :=
  match body.get? name with
  | some value => if value.asString? = some text then .ok () else .error (.protocol (breach value))
  | none => .ok ()

/-- Whether the members of a decrypted reply report success. -/
def reportsSuccess (body : Json.Members) : Bool := ((body.get? "success").map Json.truthy).getD false

/-- The error of a decrypted reply that does not report success: the refusal that it spells, if it
spells one. -/
def refusal (action : Action) (body : Json.Members) : Error :=
  if body.has "error" || body.has "errorCode" then
    let message := (body.get? "error" >>= Json.asString?).getD ""
    match Failure.ofParts action (body.get? "errorCode") message with
    | .ok failure => failure.error
    | .error e => e
  else .protocol (.noSuccess action)

/-- The members of a decrypted reply that answers a request: it may not name another action or
another nonce, and it must report success. -/
def checkReply (action : Action) (replyNonce : Nonce) (body : Json.Members) :
    Except Error Json.Members := do
  checkMember body "action" action.wireName fun named => .namesAction action named.text
  checkMember body "nonce" replyNonce.toBase64 fun _ => .foreignNonce action
  if reportsSuccess body then return body
  throw (refusal action body)

/-- Puts a request into a box and writes it. -/
def submit (action : Action) (fields : Json.Members) (triggerUnlock : Bool) :
    Run σ SealedRequest := do
  let request ← onSession (Session.sealRequest action fields triggerUnlock)
  let bytes ← ofExcept request.envelope.encode
  onLink (Link.send bytes)
  record (.sent request.envelope)
  return request

/-- Takes the message that came for a request: the members of its box if it answers the request. -/
def settle (action : Action) (request : SealedRequest) : Inbound → Run σ Json.Members
  | .encrypted reply => do
    let opened ← ofExcept (Session.openReply reply request.replyNonce (← get).session)
    let body ← ofExcept (checkReply action request.replyNonce opened)
    record (.accepted reply body)
    return body
  | .failure failure => throw failure.error
  | other => throw (.protocol (.plaintextReply other.action action))

/-- Sends an encrypted request and takes the reply. -/
def exchange (action : Action) (fields : Json.Members) (triggerUnlock : Bool) :
    Run σ Json.Members := do
  let request ← submit action fields triggerUnlock
  let inbound ← awaitReply action (timeoutFor (← get).config action triggerUnlock)
  settle action request inbound

/-- Sends an encrypted request and takes the reply. A reply that stays out closes the connection:
it might otherwise be taken for the reply to a later request. -/
def roundTrip (action : Action) (fields : Json.Members) (triggerUnlock : Bool) :
    Run σ Json.Members := do
  ensureOpen
  closing (exchange action fields triggerUnlock)

/-- The text of a member that a reply must have. -/
def requireText (reply : Json.Members) (name : String) : Except Error String :=
  match reply.get? name >>= Json.asString? with
  | some text => .ok text
  | none => .error (.protocol (.lacks name))

end Client

end VaultLink
