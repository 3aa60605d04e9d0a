import VaultLink.Client.Operations
import VaultLink.Proofs.Client.Sequencing

/-!
# Runs of a client

A run is a row of moves: a call of an operation, something that the other end of the link does, or a
change of the registry by another client (`Move`, `Client.run`).
-/

namespace VaultLink

/-- What a caller can ask of a client, with what the call is given. -/
inductive Operation where
  | shakeHands
  | nextEvent
  | getDatabaseHash (triggerUnlock : Bool)
  | associate
  | testAssociate (record : Association)
  | testAssociation (databaseId : String)
  | ensureAssociated
  | generatePassword
  | getLogins (query : LoginQuery)
  | findLogin (url : String) (login : Option String) (password : String)
  | setLogin (update : LoginUpdate)
  | getDatabaseGroups
  | createNewGroup (name : String)
  | getTotp (uuid : String)
  | deleteEntry (uuid : String)
  | requestAutotype (search : String)
  | lockDatabase
  | passkeysRegister (publicKey : Json) (origin : String)
  | passkeysGet (publicKey : Json) (origin : String)

namespace Client

variable {σ : Type} [AssociationStore σ]

/-- The client that a call of an operation leaves, done or failed. -/
def perform : Operation → Client σ → Client σ
  | .shakeHands => after shakeHands
  | .nextEvent => after nextEvent
  | .getDatabaseHash triggerUnlock => after (getDatabaseHash triggerUnlock)
  | .associate => after associate
  | .testAssociate record => after (testAssociate record)
  | .testAssociation databaseId => after (testAssociation databaseId)
  | .ensureAssociated => after ensureAssociated
  | .generatePassword => after generatePassword
  | .getLogins query => after (getLogins query)
  | .findLogin url login password => after (findLogin url login password)
  | .setLogin update => after (setLogin update)
  | .getDatabaseGroups => after getDatabaseGroups
  | .createNewGroup name => after (createNewGroup name)
  | .getTotp uuid => after (getTotp uuid)
  | .deleteEntry uuid => after (deleteEntry uuid)
  | .requestAutotype search => after (requestAutotype search)
  | .lockDatabase => after lockDatabase
  | .passkeysRegister publicKey origin => after (passkeysRegister publicKey origin)
  | .passkeysGet publicKey origin => after (passkeysGet publicKey origin)

/-- What happens in a run. -/
inductive Move (σ : Type) where
  /-- An operation is called. -/
  | call (operation : Operation)
  /-- The other end of the link acts, and time passes: what will arrive, whether the next write fails,
  and what each of the next messages will bring about, given all messages up to it. -/
  | proxy (arrivals : List Arrival) (clock : Instant) (writeFault : Option String)
      (answers : List (List Bytes → List Arrival))
  /-- Another client changes the registry, or its store changes. -/
  | share (registry : Registry σ)

/-- The client after a move. -/
def Move.apply : Move σ → Client σ → Client σ
  | call operation, c => perform operation c
  | proxy arrivals clock writeFault answers, c =>
    { c with link := { c.link with arrivals, clock, writeFault, answers } }
  | share registry, c => { c with registry }

/-- The client after a row of moves. -/
def run (moves : List (Move σ)) (c : Client σ) : Client σ := moves.foldl (fun c m => m.apply c) c

theorem run_append (moves more : List (Move σ)) (c : Client σ) :
    run (moves ++ more) c = run more (run moves c) := List.foldl_append

end Client

end VaultLink
