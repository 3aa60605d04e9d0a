import VaultLink.Command.Line
import VaultLink.Command.Report

/-!
# Commands at work

What each command does with a client, and the whole run of a program: the configuration, the store of
associations, the connection and the command. Everything that a run finds around it is a value, and
so is all that it leaves behind.

* `Command.perform`: a command that talks to the proxy;
* `Host.run`: the run of a program.
-/

namespace VaultLink

/-- The version of the program. -/
def programVersion : String := "0.1.0"

/-- The outcome of a check as the user reads it. -/
def TestOutcome.word : TestOutcome → String
  | valid => "valid"
  | invalid => "invalid"
  | notFound => "not associated"

namespace Command

variable {σ : Type}

/-- Waits for signals until an error comes up or nothing more will arrive. Each signal takes one from
`fuel`. -/
def watchFrom : (fuel : Nat) → Run σ (List Signal × Option Error)
  | 0 => return ([], none)
  | fuel + 1 => do
    match ← tryCatch (Except.ok <$> Client.nextEvent) fun e => return .error e with
    | .error e => return ([], some e)
    | .ok none => return ([], none)
    | .ok (some s) =>
      let (signals, e) ← watchFrom fuel
      return (s :: signals, e)

variable [AssociationStore σ]

/-- Does what a command asks for with a client that is connected. -/
def perform (json : Bool) (command : Command) : Run σ Report := do
  let line := Report.line json
  let unlock := (← get).config.triggerUnlock
  match command with
  | .associate => do
    let _ ← Client.getDatabaseHash unlock
    let record ← Client.associate
    let said := "Associated as `" ++ record.name ++ "`"
    return { lines := [line [("id", record.name), ("hash", record.databaseId)] said] }
  | .testAssociate => do
    let hash ← Client.getDatabaseHash unlock
    let outcome ← Client.testAssociation hash
    let lines := [line [("result", outcome.word)] outcome.word]
    if outcome = .valid then return { lines }
    else return { lines, complaint := some { head := "association is " ++ outcome.word } }
  | .hash => do
    let hash ← Client.getDatabaseHash unlock
    return { lines := [line [("hash", hash)] hash] }
  | .logins url submitUrl httpAuth => do
    let entries ← Client.getLogins { url, submitUrl, httpAuth }
    let lines := entries.map fun entry =>
      line [("login", entry.login), ("name", entry.name), ("password", entry.password),
          ("uuid", entry.uuid)]
        (entry.uuid ++ "\t" ++ entry.login ++ "\t" ++ entry.name)
    return { lines }
  | .setLogin url login password group groupUuid uuid => do
    let uuid ← Client.setLogin { url, login, password, group, groupUuid, uuid }
    return { lines := [line [("uuid", uuid.getD "")] (uuid.getD "")] }
  | .generatePassword => do
    let password ← Client.generatePassword
    return { lines := [line [("password", password)] password] }
  | .lock => do
    Client.lockDatabase
    return {}
  | .groups => do
    let tree ← Client.getDatabaseGroups
    let lines := tree.flatten.map fun (path, uuid) =>
      line [("path", path), ("uuid", uuid)] (uuid ++ "\t" ++ path)
    return { lines }
  | .createGroup name => do
    let group ← Client.createNewGroup name
    let said := group.uuid ++ "\t" ++ group.name
    return { lines := [line [("name", group.name), ("uuid", group.uuid)] said] }
  | .totp uuid => do
    let totp ← Client.getTotp uuid
    return { lines := [line [("totp", totp)] totp] }
  | .deleteEntry uuid => do
    Client.deleteEntry uuid
    return {}
  | .autotype url => do
    Client.requestAutotype url
    return {}
  | .watch => do
    let (signals, e) ← watchFrom ((← get).link.volume + 1)
    let lines := signals.map fun s => line [("event", s.label)] s.label
    return { lines, complaint := e.map .ofError, isOpen := e.isNone }
  | .associations | .version => return {}

end Command

/-- What a program finds around it. -/
structure Host where
  env : Environment
  files : FileSystem
  entropy : Entropy
  /-- How the proxy that listens at a path answers the client's messages. -/
  listener : String → Option (List (List Bytes → List Arrival))

/-- What a run was waiting for when it ended. -/
inductive Awaiting where
  | nothing
  /-- A reply, for some time. -/
  | reply (wait : Duration)
  /-- Anything, without an end. -/
  | anything
  deriving DecidableEq, Repr

/-- What a program leaves behind. -/
structure Outcome where
  exitCode : Nat
  output : String := ""
  /-- What the program says about an error. -/
  errorOutput : String := ""
  files : FileSystem
  /-- The messages that were written to the proxy. -/
  written : List Bytes := []
  awaiting : Awaiting := .nothing

namespace Host

/-- The configuration of an invocation: its options before the environment's variables. -/
def config (host : Host) (invocation : Invocation) : Except Error Config := do
  let base ← Config.ofEnvironment host.env fun path => (host.listener path).isSome
  let config : Config :=
    { socketPath := invocation.socket.getD base.socketPath
      storePath := invocation.store.getD base.storePath
      requestTimeout := base.requestTimeout
      interactiveTimeout :=
        (invocation.interactiveTimeout.map Duration.ofSeconds).getD base.interactiveTimeout
      triggerUnlock := base.triggerUnlock || invocation.unlock }
  config.validate
  return config

/-- How many bytes the address of a socket has room for; the last one marks the end of its path. -/
def addressCapacity : Nat := 108

/-- Connects to the proxy and exchanges keys. -/
def connect (host : Host) (config : Config) (registry : Registry FileStore) :
    Except Error Unit × Client FileStore :=
  let client := Client.new 0 config registry host.entropy
  match host.listener config.socketPath with
  | none =>
    let reason := if config.socketPath.utf8ByteSize < addressCapacity then
        FileFault.notFound.message
      else "path must be shorter than SUN_LEN"
    (.error (.transport reason), client)
  | some answers =>
    match Client.shakeHands { client with link := { client.link with answers } } with
    | .ok () client => (.ok (), client)
    | .error e client => (.error e, client)

/-- What a program with a report leaves behind. -/
def finish (files : FileSystem) (report : Report) : Outcome :=
  { exitCode := (report.complaint.map Complaint.exitCode).getD 0
    output := report.text
    errorOutput := (report.complaint.map Complaint.text).getD ""
    files }

/-- What a program with a client leaves behind. -/
def finishWith (client : Client FileStore) (report : Report) : Outcome :=
  { finish client.registry.store.fs report with
    written := client.link.written
    awaiting := match report.complaint >>= Complaint.wait with
      | some wait => .reply wait
      | none => if report.isOpen then .anything else .nothing }

/-- The associations in the store, as the user reads them. -/
def listing (json : Bool) (registry : Registry FileStore) : Report :=
  let lines := registry.records.map fun record =>
    Report.line json
      [("database", record.databaseId), ("id", record.name), ("key", record.connectionKey.key)]
      (record.name ++ "  " ++ record.databaseId)
  { lines }

/-- Runs a command that needs the store of associations, and all but one also the proxy. -/
def runWith (host : Host) (invocation : Invocation) (config : Config)
    (registry : Registry FileStore) : Outcome :=
  if invocation.command = .associations then
    finish host.files (listing invocation.json registry)
  else
    match host.connect config registry with
    | (.error e, client) =>
      finishWith client { complaint := some (.within ("connecting to " ++ config.socketPath) e) }
    | (.ok (), client) =>
      match invocation.command.perform invocation.json client with
      | .ok report client => finishWith client report
      | .error e client => finishWith client { complaint := some (.ofError e) }

/-- The run of a program with the words of its command line. -/
def run (host : Host) (words : List String) : Outcome :=
  match Invocation.ofWords host.env words with
  | .error .help => { exitCode := 0, output := UsageFault.help.message ++ "\n", files := host.files }
  | .error fault =>
    { exitCode := 2, errorOutput := "error: " ++ fault.message ++ "\n", files := host.files }
  | .ok invocation =>
    if invocation.command = .version then
      finish host.files { lines := ["kpx " ++ programVersion] }
    else
      match host.config invocation with
      | .error e => finish host.files { complaint := some (.ofError e) }
      | .ok config =>
        match Registry.ofStore (FileStore.mk config.storePath host.files) with
        | .error e =>
          finish host.files { complaint := some (.within ("loading " ++ config.storePath) e) }
        | .ok registry => host.runWith invocation config registry

end Host

end VaultLink
