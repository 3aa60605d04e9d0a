import VaultLink.Wire.Frame

/-!
# Links

A link is the client's end of a stream to a proxy, in virtual time. What the proxy will send is a
list of arrivals, to which each message written adds; time passes only while the reader waits. A link
delivers messages, and everything else that can become of a wait.

* `Link.send`: writes a message; `Link.receive`: waits for a message, up to a deadline if there is
  one;
* `Link.volume`: how many bytes are there or under way, which bounds the number of messages.
-/

namespace VaultLink

/-- A point in time, in milliseconds. -/
abbrev Instant := Nat

/-- Something that the reader of a stream comes upon. -/
inductive Arrival where
  /-- Bytes, as one read gives them. -/
  | data (bytes : Bytes)
  /-- Nothing more for this long, from when the reader comes here. -/
  | pause (span : Duration)
  /-- Nothing more until then. -/
  | hold (time : Instant)
  /-- The end of the stream, which stays the end. -/
  | close
  /-- The end of the stream, after which nothing can be written either. -/
  | hangUp
  /-- A read that fails. -/
  | fault (text : String)
  deriving DecidableEq

/-- The number of bytes that an arrival brings. -/
def Arrival.volume : Arrival → Nat
  | data bytes => bytes.length
  | _ => 0

/-- The number of bytes that some arrivals bring. -/
def Arrival.volumes : List Arrival → Nat
  | [] => 0
  | arrival :: more => arrival.volume + volumes more

/-- The client's end of a stream to a proxy. -/
structure Link where
  /-- The bytes that were read and not yet delivered. -/
  buffer : Bytes
  /-- What the reader will come upon, in order. -/
  arrivals : List Arrival
  /-- The current time. -/
  clock : Instant
  /-- The failure of the next write, if it fails. -/
  writeFault : Option String
  /-- What each of the next writes brings about, given all messages written up to it. -/
  answers : List (List Bytes → List Arrival)
  /-- The messages written, in order. -/
  written : List Bytes

namespace Link

/-- A link on which nothing has happened. -/
def fresh (clock : Instant) : Link := ⟨[], [], clock, none, [], []⟩

/-- What became of a wait for a message. -/
inductive Received where
  | message (text : String)
  | failed (error : Error)
  /-- The deadline passed. -/
  | late
  /-- There is no deadline and nothing more will arrive. -/
  | never
  deriving DecidableEq

/-- How a wait leaves the link, as far as it changes it. -/
structure Reading where
  outcome : Received
  buffer : Bytes
  arrivals : List Arrival
  clock : Instant

/-- What the bytes at hand mean to a wait. -/
inductive AtHand where
  /-- The wait is over; the bytes that stay. -/
  | settled (outcome : Received) (rest : Bytes)
  /-- More must come; the bytes that stay. -/
  | wanting (buffer : Bytes)

/-- Looks for the first frame of the bytes at hand. Bytes that are not JSON and messages that grow
too long are dropped altogether. -/
def atHand (buffer : Bytes) : AtHand :=
  match Frame.split buffer with
  | .message text rest => .settled (.message text) rest
  | .notText fault rest => .settled (.failed (.malformedMessage (.notUtf8 fault))) rest
  | .oversized => .settled (.failed (.malformedMessage .oversized)) []
  | .unparsable fault => .settled (.failed (.malformedMessage (.unparsable fault))) []
  | .blank => .wanting []
  | .unfinished => .wanting buffer

/-- The end of a wait for which nothing more will arrive. -/
def idle (deadline : Option Instant) (buffer : Bytes) (clock : Instant) : Reading :=
  match deadline with
  | some d => ⟨.late, buffer, [], max clock d⟩
  | none => ⟨.never, buffer, [], clock⟩

/-- Waits for a message up to a deadline. The bytes at hand are looked at before every read, and
bytes that come at the deadline still count. -/
def readFrom (deadline : Option Instant) :
    (buffer : Bytes) → (clock : Instant) → List Arrival → Reading
  | buffer, clock, [] =>
    match atHand buffer with
    | .settled outcome rest => ⟨outcome, rest, [], clock⟩
    | .wanting buffer => idle deadline buffer clock
  | buffer, clock, arrival :: more =>
    match atHand buffer with
    | .settled outcome rest => ⟨outcome, rest, arrival :: more, clock⟩
    | .wanting buffer =>
      let resume (t : Instant) : Reading :=
        match deadline with
        | some d =>
          if d < t then ⟨.late, buffer, .hold t :: more, max clock d⟩
          else readFrom deadline buffer (max clock t) more
        | none => readFrom deadline buffer (max clock t) more
      match arrival with
      | .data bytes => readFrom deadline (buffer ++ bytes) clock more
      | .close => ⟨.failed .disconnected, buffer, .close :: more, clock⟩
      | .hangUp => ⟨.failed .disconnected, buffer, .hangUp :: more, clock⟩
      | .fault text => ⟨.failed (.transport text), buffer, more, clock⟩
      | .pause span => resume (clock + span)
      | .hold t => resume t

/-- Waits for a message up to a deadline. -/
def receive (deadline : Option Instant) (link : Link) : Received × Link :=
  let reading := readFrom deadline link.buffer link.clock link.arrivals
  (reading.outcome,
    { link with buffer := reading.buffer, arrivals := reading.arrivals, clock := reading.clock })

/-- Whether nothing but data and times that have passed stands before the proxy's hanging up. -/
def isHungUp (clock : Instant) : List Arrival → Bool
  | .hangUp :: _ => true
  | .data _ :: more => isHungUp clock more
  | .hold t :: more => t ≤ clock && isHungUp clock more
  | _ => false

/-- Why a message cannot be written, if it cannot. -/
def writeFailure? (link : Link) : Option String :=
  match link.writeFault with
  | some text => some text
  | none => if isHungUp link.clock link.arrivals then some "Broken pipe (os error 32)" else none

/-- Writes a message, and learns what it brings about. A write that fails writes nothing. -/
def send (message : Bytes) (link : Link) : Except Error Unit × Link :=
  match link.writeFailure? with
  | some text => (.error (.transport text), { link with writeFault := none })
  | none =>
    let written := link.written ++ [message]
    match link.answers with
    | [] => (.ok (), { link with written })
    | answer :: answers =>
      (.ok (), { link with written, answers, arrivals := link.arrivals ++ answer written })

/-- The number of bytes at hand or under way. -/
def volume (link : Link) : Nat :=
  link.buffer.length + Arrival.volumes link.arrivals

end Link

end VaultLink
