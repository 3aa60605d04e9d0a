import VaultLink.Error
import VaultLink.Files.Path
import VaultLink.Text.Blank
import VaultLink.Text.Integer

/-!
# Configuration

Where the proxy and the association store are and how long a reply may take. Defaults come from the
usual places of the system, and environment variables override them.

* `Environment`: named texts; `Environment.flag`, `Environment.seconds?`;
* `socketCandidates`, `defaultSocketPath`, `defaultStorePath`;
* `Config.ofEnvironment`, `Config.validate`.
-/

namespace VaultLink

/-- The variables of an environment. -/
abbrev Environment := List (String × String)

namespace Environment

/-- The value of a variable. -/
def get? (env : Environment) (name : String) : Option String := env.lookup name

/-- Whether a variable says yes; the default if it is not set. -/
def flag (env : Environment) (name : String) (default : Bool) : Bool :=
  match env.get? name with
  | none => default
  | some value =>
    let word := (Blank.trimChars value.toList).map Char.toLower
    ["1", "true", "yes", "on"].contains (String.ofList word)

/-- A variable as a number of seconds. -/
def seconds? (env : Environment) (name : String) : Except Error (Option Nat) :=
  match env.get? name with
  | none => .ok none
  | some value =>
    match Integer.unsigned64? (Blank.trim value) with
    | some n => .ok (some n)
    | none => .error (.config (.notSeconds name value))

end Environment

/-- The name of the socket on which the proxy listens. -/
def serverName : String := "org.keepassxc.KeePassXC.BrowserServer"

/-- The directory of a sandboxed proxy below the runtime directory. -/
def sandboxDirectory : String := "app/org.keepassxc.KeePassXC"

/-- A path behind a directory. -/
def below (directory path : String) : String := FilePath.join directory path

/-- Where the socket may be, the likeliest place first. -/
def socketCandidates (runtimeDir home tmpDir : Option String) : List String :=
  (match runtimeDir with
    | some dir => [below (below dir sandboxDirectory) serverName, below dir serverName]
    | none => [])
  ++ (match home with
    | some dir => [below (below dir "snap/keepassxc/common") serverName]
    | none => [])
  ++ (match tmpDir with
    | some dir => [below dir serverName]
    | none => [])
  ++ [below "/tmp" serverName]

/-- The first candidate that is there; without one, the place where it would be. -/
def defaultSocketPath (env : Environment) (present : String → Bool) : String :=
  let runtimeDir := env.get? "XDG_RUNTIME_DIR"
  let candidates := socketCandidates runtimeDir (env.get? "HOME") (env.get? "TMPDIR")
  match candidates.find? present with
  | some path => path
  | none =>
    match runtimeDir with
    | some dir => below (below dir sandboxDirectory) serverName
    | none => below "/tmp" serverName

/-- The store file in the user's configuration directory. -/
def defaultStorePath (env : Environment) : String :=
  let base := match env.get? "XDG_CONFIG_HOME" with
    | some dir => dir
    | none =>
      match env.get? "HOME" with
      | some home => below home ".config"
      | none => "."
  below (below base "kpx") "associations.json"

/-- Where things are and how long they may take. -/
structure Config where
  socketPath : String
  storePath : String
  /-- How long a reply may take. -/
  requestTimeout : Duration
  /-- How long a reply may take that needs the user. -/
  interactiveTimeout : Duration
  /-- Whether the proxy is asked to have the database unlocked first. -/
  triggerUnlock : Bool
  deriving DecidableEq, Repr

namespace Config

/-- The configuration of an environment that overrides nothing. -/
def default (env : Environment) (present : String → Bool) : Config where
  socketPath := defaultSocketPath env present
  storePath := defaultStorePath env
  requestTimeout := .ofSeconds 5
  interactiveTimeout := .ofSeconds 120
  triggerUnlock := false

/-- Fails if the configuration cannot be used. -/
def validate (config : Config) : Except Error Unit :=
  if config.requestTimeout = 0 || config.interactiveTimeout = 0 then
    .error (.config .zeroTimeout)
  else if config.socketPath.isEmpty then .error (.config .emptySocketPath)
  else .ok ()

/-- The configuration of an environment. -/
def ofEnvironment (env : Environment) (present : String → Bool) : Except Error Config := do
  let base := default env present
  let request ← env.seconds? "KPX_REQUEST_TIMEOUT_SECS"
  let interactive ← env.seconds? "KPX_INTERACTIVE_TIMEOUT_SECS"
  let config : Config :=
    { socketPath := (env.get? "KPX_SOCKET_PATH").getD base.socketPath
      storePath := (env.get? "KPX_STORE_PATH").getD base.storePath
      requestTimeout := (request.map Duration.ofSeconds).getD base.requestTimeout
      interactiveTimeout := (interactive.map Duration.ofSeconds).getD base.interactiveTimeout
      triggerUnlock := env.flag "KPX_TRIGGER_UNLOCK" base.triggerUnlock }
  config.validate
  return config

end Config

end VaultLink
