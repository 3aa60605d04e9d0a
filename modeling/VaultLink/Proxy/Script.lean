import VaultLink.Crypto.Box
import VaultLink.Proxy.Outbound
import VaultLink.Wire.Link

/-!
# Scripted proxies

A proxy whose part is written down beforehand: for each message of a client, the steps by which it
answers. A step is something that befalls the reader, or a message that refers to the client's
latest one, and most messages can be spoilt on purpose.

* `Script.Cue`: what the proxy knows of the client from the messages written so far;
* `Script.Reply.bytes`: a message on a cue;
* `Script.answers`: what each message of the client brings about, as a `Link` takes it.
-/

namespace VaultLink.Script

/-- What a proxy refers to when it answers. -/
structure Cue where
  /-- The name of the action that the client's latest message is about. -/
  action : String
  /-- The nonce of that message. -/
  nonce : Nonce
  /-- The client's public key, as last announced. -/
  client : PublicKey

/-- What a proxy refers to before the client has written anything. -/
def Cue.silent : Cue := ⟨"", .replicate 24 0, ⟨.replicate 32 0⟩⟩

/-- What a proxy refers to after one more message. -/
def Cue.after (cue : Cue) (message : Bytes) : Cue :=
  match Outbound.ofBytes? message with
  | some (.keyExchange client nonce _) => ⟨Action.changePublicKeys.wireName, nonce, client⟩
  | some (.encrypted action _ nonce _ _) => { cue with action := action.wireName, nonce }
  | none => cue

/-- What a proxy refers to after the messages written so far. -/
def Cue.ofWritten (written : List Bytes) : Cue := written.foldl Cue.after .silent

/-- Changes to the members of a message: another value, or none to take a member away. -/
abbrev Changes := List (String × Option Json)

/-- The members of a message after changes. -/
def Changes.apply (changes : Changes) (members : Json.Members) : Json.Members :=
  changes.foldl (fun members change =>
    match change.2 with
    | some value => members.insert change.1 value
    | none => members.erase change.1) members

/-- What a message of the proxy holds. -/
inductive Content where
  /-- A signal, by what follows `database-` in its name. -/
  | signal (name : String)
  /-- A refusal. -/
  | refusal (code : Json) (message : String)
  /-- A text in which `$ACTION`, `$NONCE`, `$PROXYKEY` and `$CLIENTKEY` stand for their values. -/
  | template (text : String)
  /-- The reply to the key exchange, with changes. -/
  | keys (changes : Changes)
  /-- A box with a payload that reports success, with changes. -/
  | success (changes : Changes)
  /-- A box with a payload of any kind. -/
  | box (payload : Bytes)

/-- A message of the proxy, and how it departs from a proper answer. -/
structure Reply where
  content : Content
  /-- Another action to name on the outside. -/
  action : Option String := none
  /-- How far the nonce lies behind the one of the client's message. -/
  nonceAdd : Nat := 1
  /-- How much further the nonce beside a box lies than the one that the box is sealed under. -/
  outerNonceAdd : Nat := 0
  /-- The place, modulo the length, of a byte of the box to spoil. -/
  flip : Option Nat := none
  /-- How many bytes of the box are kept. -/
  cut : Option Nat := none

/-- Spoils the byte of a box at a place modulo the box's length. -/
def flipByte (place : Nat) (mask : UInt8) (box : Bytes) : Bytes :=
  box.modify (place % box.length) (· ^^^ mask)

namespace Reply

/-- The action that a message names. -/
def actionOn (reply : Reply) (cue : Cue) : String := reply.action.getD cue.action

/-- The nonce of a message. -/
def nonceOn (reply : Reply) (cue : Cue) : Nonce := cue.nonce.advance reply.nonceAdd

/-- A message with a box. -/
def boxed (reply : Reply) (proxy : KeyPair) (cue : Cue) (payload : Bytes) : Json :=
  let nonce := reply.nonceOn cue
  let box := Box.encrypt proxy cue.client nonce payload
  let spoilt := match reply.flip with
    | some place => flipByte place 1 box
    | none => box
  let kept := match reply.cut with
    | some n => spoilt.take n
    | none => spoilt
  .object [("action", .string (reply.actionOn cue)), ("message", .string (Base64.encode kept)),
    ("nonce", .string (nonce.advance reply.outerNonceAdd).toBase64)]

/-- The members of a proper reply to the key exchange. -/
def keyMembers (reply : Reply) (proxy : KeyPair) (cue : Cue) : Json.Members :=
  [("action", .string (reply.actionOn cue)), ("nonce", .string (reply.nonceOn cue).toBase64),
    ("publicKey", .string proxy.publicKey.toBase64), ("success", .string "true"),
    ("version", .string "2.7.6")]

/-- The members of a payload that reports success. -/
def successMembers (reply : Reply) (cue : Cue) : Json.Members :=
  [("action", .string cue.action), ("nonce", .string (reply.nonceOn cue).toBase64),
    ("success", .string "true")]

/-- The bytes of a message on a cue. -/
def bytes (proxy : KeyPair) (cue : Cue) (reply : Reply) : Bytes :=
  match reply.content with
  | .signal name => Json.render (.object [("action", .string ("database-" ++ name))])
  | .refusal code message =>
    Json.render (.object [("action", .string (reply.actionOn cue)), ("error", .string message),
      ("errorCode", code)])
  | .template text =>
    Utf8.encode ((((text.replace "$ACTION" (reply.actionOn cue)).replace
      "$NONCE" (reply.nonceOn cue).toBase64).replace
      "$PROXYKEY" proxy.publicKey.toBase64).replace
      "$CLIENTKEY" cue.client.toBase64)
  | .keys changes => Json.render (.object (changes.apply (reply.keyMembers proxy cue)))
  | .success changes =>
    Json.render (reply.boxed proxy cue
      (Json.render (.object (changes.apply (reply.successMembers cue)))))
  | .box payload => Json.render (reply.boxed proxy cue payload)

end Reply

/-- A step of a scripted proxy. -/
inductive Step where
  /-- Something that befalls the reader. -/
  | event (arrival : Arrival)
  /-- A message. -/
  | reply (reply : Reply)

/-- What a step brings to the reader. -/
def Step.arrival (proxy : KeyPair) (cue : Cue) : Step → Arrival
  | event arrival => arrival
  | reply r => .data (r.bytes proxy cue)

/-- What steps bring to the reader after the messages written so far. -/
def arrivals (proxy : KeyPair) (steps : List Step) (written : List Bytes) : List Arrival :=
  let cue := Cue.ofWritten written
  steps.map (Step.arrival proxy cue)

/-- What each message of the client brings about: the first list of steps answers the first one. -/
def answers (proxy : KeyPair) (replies : List (List Step)) : List (List Bytes → List Arrival) :=
  replies.map (arrivals proxy)

/-- The payload of a client's message, as the proxy reads it; `none` for a message without a box and
for a box that does not open. -/
def payload? (proxy : KeyPair) (client : PublicKey) : Outbound → Option Bytes
  | .keyExchange .. => none
  | .encrypted _ box nonce _ _ => (Box.decrypt proxy client nonce box).toOption

end VaultLink.Script
