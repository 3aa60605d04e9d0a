import VaultLink.Command.Perform

/-!
# The program

The command line at work on a real system. A run of `Host.run` is a value, so the program runs it
again with everything that has arrived so far: a message that the run writes and that is not sent yet
is sent, and a wait at its end is made a real one. The endpoint of the proxy is opened as a file for
reading and writing, such as a named pipe or a terminal line.
-/

namespace VaultLink.Program

/-- The variables that a run looks at. -/
def variableNames : List String :=
  ["KPX_SOCKET_PATH", "KPX_STORE_PATH", "KPX_REQUEST_TIMEOUT_SECS", "KPX_INTERACTIVE_TIMEOUT_SECS",
    "KPX_TRIGGER_UNLOCK", "KPX_PASSWORD", "XDG_RUNTIME_DIR", "XDG_CONFIG_HOME", "HOME", "TMPDIR"]

/-- The variables of the environment that a run looks at. -/
def readEnvironment : IO Environment :=
  variableNames.filterMapM fun name => do
    return (← IO.getEnv name).map fun value => (name, value)

/-- Whether there is anything at a path. -/
def isPresent (path : String) : IO Bool := do ((← IO.currentDir) / path).pathExists

/-- The places on the way of a route, the last one first. -/
def placesOf (route : Route) : List Place :=
  (route.front ++ [route.last]).foldl (fun places name =>
    (places.headD route.start).toward name :: places) []

/-- A file and the directories on the way to it, which count as there. -/
def readFiles (path : String) : IO FileSystem := do
  match (Route.ofPath path).toOption.map placesOf with
  | some (place :: way) =>
    let directories := way.map fun place => (place, Node.directory)
    let content ← try (some ∘ ByteArray.toList) <$> IO.FS.readBinFile path catch _ => pure none
    match content with
    | some bytes => return { nodes := (place, .file bytes 0o600) :: directories }
    | none =>
      if ← isPresent path then return { nodes := (place, .directory) :: directories }
      else return { nodes := directories }
  | _ => return { nodes := [] }

/-- Writes a file that a run has changed: a draft first, which then takes the file's place. -/
def writeFiles (path : String) (before after : FileSystem) : IO Unit := do
  match after.read path with
  | .ok content =>
    if (before.read path).toOption = some content then return
    let directory := (FilePath.parent? path).getD ""
    if !directory.isEmpty then IO.FS.createDirAll directory
    let draft := FileStore.draft path
    IO.FS.writeBinFile draft ⟨content.toArray⟩
    IO.setAccessRights draft { user := { read := true, write := true } }
    IO.FS.rename draft path
  | .error _ => return

/-- The next bytes from the endpoint: those of one read, or the end of the stream; nothing if they do
not come in time. -/
partial def readArrival (pending : Task (Except IO.Error ByteArray)) (deadline : Option Nat) :
    IO (Option Arrival) := do
  if ← IO.hasFinished pending then
    match pending.get with
    | .ok bytes => return some (if bytes.isEmpty then .close else .data bytes.toList)
    | .error e => return some (.fault (toString e))
  else
    match deadline with
    | some time => if time ≤ (← IO.monoMsNow) then return none
    | none => pure ()
    IO.sleep 10
    readArrival pending deadline

/-- Runs the words of a command line again and again, each time with what has arrived since, until
nothing is left to be sent or awaited. -/
partial def converse (host : Host) (words : List String) (socket : String)
    (endpoint : IO.FS.Handle) (answers : List (List Arrival)) (since printed : Nat) :
    IO Outcome := do
  let outcome := { host with
    listener := fun path =>
      if path = socket then some (answers.map fun arrivals _ => arrivals) else none }.run words
  IO.print (outcome.output.drop printed)
  let printed := outcome.output.length
  match outcome.written[answers.length]? with
  | some message =>
    endpoint.write ⟨message.toArray⟩
    endpoint.flush
    converse host words socket endpoint (answers ++ [[]]) (← IO.monoMsNow) printed
  | none =>
    let wait := match outcome.awaiting with
      | .nothing => none
      | .reply span => some (some (since + span))
      | .anything => some none
    match wait with
    | none => return outcome
    | some deadline =>
      match ← readArrival (← IO.asTask (endpoint.read 8192)) deadline with
      | none => return outcome
      | some arrival =>
        let answers := answers.dropLast ++ [answers.getLastD [] ++ [arrival]]
        converse host words socket endpoint answers since printed

/-- Runs the words of a command line on the system. -/
def runOnSystem (words : List String) : IO Outcome := do
  let env ← readEnvironment
  let candidates := socketCandidates (env.get? "XDG_RUNTIME_DIR") (env.get? "HOME")
    (env.get? "TMPDIR")
  let present ← candidates.filterM isPresent
  let entropy := Entropy.ofBytes (← IO.getRandomBytes 4096).toList
  let bare : Host :=
    { env, files := { nodes := [] }, entropy
      listener := fun path => if present.contains path then some [] else none }
  match (Invocation.ofWords env words).toOption.map bare.config with
  | some (.ok config) =>
    let files ← readFiles config.storePath
    let host := { bare with files }
    let endpoint ← try some <$> IO.FS.Handle.mk config.socketPath .readWrite catch _ => pure none
    let outcome ← match endpoint with
      | some endpoint => converse host words config.socketPath endpoint [] 0 0
      | none => do
        let outcome := { host with listener := fun _ => none }.run words
        IO.print outcome.output
        pure outcome
    writeFiles config.storePath files outcome.files
    return outcome
  | _ => do
    let outcome := bare.run words
    IO.print outcome.output
    return outcome

end VaultLink.Program

/-- The program: its exit code. -/
def main (words : List String) : IO UInt32 := do
  let outcome ← VaultLink.Program.runOnSystem words
  IO.eprint outcome.errorOutput
  return outcome.exitCode.toUInt32
