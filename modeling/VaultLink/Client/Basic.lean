import VaultLink.Association.Registry
import VaultLink.Config
import VaultLink.Session
import VaultLink.Wire.Link

/-!
# The client

A client is one connection to the proxy: the link, the session that runs over it, what is known of the
open database, the registry of associations, and a journal of what passed over the connection, from
which subscribers read its signals. Operations run in `Run`: they change the client also when they
fail.
-/

namespace VaultLink

/-- What is known of the association with the current database. -/
inductive AssociationState where
  /-- It was not checked on this connection. -/
  | unknown
  /-- The proxy accepted it on this connection. -/
  | validated
  /-- There is none, or the proxy does not accept it any more. -/
  | notAssociated
  deriving DecidableEq, Repr

/-- The state as a person is told of it. -/
def AssociationState.label : AssociationState → String
  | unknown => "Unknown"
  | validated => "Validated"
  | notAssociated => "NotAssociated"

/-- What checking an association found. -/
inductive TestOutcome where
  | valid
  | invalid
  /-- No record is kept for the database. -/
  | notFound
  deriving DecidableEq, Repr

/-- The outcome as a person is told of it. -/
def TestOutcome.label : TestOutcome → String
  | valid => "Valid"
  | invalid => "Invalid"
  | notFound => "NotFound"

/-- Something that passed over a connection. -/
inductive Note where
  /-- A message was written. -/
  | sent (message : Outbound)
  /-- A signal was taken. -/
  | signal (signal : Signal)
  /-- A reply in a box was accepted; the members of its payload. -/
  | accepted (reply : BoxedReply) (body : Json.Members)

namespace Note

/-- The message that was written. -/
def sent? : Note → Option Outbound
  | sent message => some message
  | _ => none

/-- The signal that was taken. -/
def signal? : Note → Option Signal
  | signal s => some s
  | _ => none

end Note

/-- One connection to the proxy. -/
structure Client (σ : Type) where
  link : Link
  session : Session
  registry : Registry σ
  config : Config
  entropy : Entropy
  /-- The hash of the current database, as last reported. -/
  databaseHash : Option String
  association : AssociationState
  /-- Whether requests and replies can no longer be told apart, so that nothing more is sent. -/
  closed : Bool
  /-- What passed over the connection so far, in order. -/
  journal : List Note

/-- An operation of a client. -/
abbrev Run (σ : Type) := EStateM Error (Client σ)

namespace Client

variable {σ α : Type}

/-- A client on a fresh link. -/
def new (clock : Instant) (config : Config) (registry : Registry σ) (entropy : Entropy) : Client σ :=
  let (session, entropy) := Session.new entropy
  { link := .fresh clock, session, registry, config, entropy, databaseHash := none
    association := .unknown, closed := false, journal := [] }

/-- Whether the key exchange took place. -/
def isEstablished (c : Client σ) : Bool := c.session.phase = .established

/-- The signals published so far, in order. -/
def events (c : Client σ) : List Signal := c.journal.filterMap Note.signal?

/-- Changes the link. -/
def onLink (f : Link → Except Error α × Link) : Run σ α := fun c =>
  match f c.link with
  | (.ok a, link) => .ok a { c with link }
  | (.error e, link) => .error e { c with link }

/-- Changes the session. -/
def onSession (f : Session → Except Error α × Session) : Run σ α := fun c =>
  match f c.session with
  | (.ok a, session) => .ok a { c with session }
  | (.error e, session) => .error e { c with session }

/-- Changes the registry. -/
def onRegistry (f : Registry σ → Except Error α × Registry σ) : Run σ α := fun c =>
  match f c.registry with
  | (.ok a, registry) => .ok a { c with registry }
  | (.error e, registry) => .error e { c with registry }

/-- A result that does not change the client. -/
def ofExcept : Except Error α → Run σ α
  | .ok a => pure a
  | .error e => throw e

/-- Fails on a closed connection. -/
def ensureOpen : Run σ Unit := do
  if (← get).closed then throw .disconnected

/-- Fails unless the key exchange took place. -/
def ensureEstablished : Run σ Unit := do
  let _ ← ofExcept (← get).session.requirePeer

/-- Whether an error leaves a request unanswered or the stream broken. -/
def breaksStream : Error → Bool
  | .timeout _ | .transport _ | .disconnected | .deadlineOverflow => true
  | _ => false

/-- Closes the connection if an operation fails with an error that breaks the stream. -/
def closing (operation : Run σ α) : Run σ α := fun c =>
  match operation c with
  | .error e c => .error e (if breaksStream e then { c with closed := true } else c)
  | done => done

/-- Puts something that passed over the connection into the journal. -/
def record (note : Note) : Run σ Unit :=
  modify fun c => { c with journal := c.journal ++ [note] }

/-- Forgets what was known of the database. -/
def forgetDatabase : Run σ Unit :=
  modify fun c => { c with databaseHash := none, association := .unknown }

/-- How many signals a subscriber may leave unread. -/
def eventCapacity : Nat := 16

/-- What a subscriber reads that has read the first `seen` signals: the number of signals lost because
they were left unread too long, and the signals after them. -/
def eventsAfter (c : Client σ) (seen : Nat) : Nat × List Signal :=
  let unread := c.events.drop seen
  let lost := unread.length - eventCapacity
  (lost, unread.drop lost)

/-- Takes a signal: the database may be another one now. -/
def takeSignal (s : Signal) : Run σ Unit := do
  forgetDatabase
  record (.signal s)

end Client

end VaultLink
