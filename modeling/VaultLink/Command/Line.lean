import VaultLink.Config

/-!
# Command lines

A command line names one command with its operands and options. Options that every command takes may
stand on either side of the command's name; the later side wins, and an environment variable fills in
for an option that is left out.

* `Words.sort`: the options and the operands of a list of words;
* `Invocation.ofWords`: the command that a command line means.
-/

namespace VaultLink

/-- What the user asks for. -/
inductive Command where
  | associate
  | testAssociate
  | hash
  | logins (url : String) (submitUrl : Option String) (httpAuth : Bool)
  | setLogin (url login password : String) (group groupUuid uuid : Option String)
  | generatePassword
  | lock
  | groups
  | createGroup (name : String)
  | totp (uuid : String)
  | deleteEntry (uuid : String)
  | autotype (url : String)
  | associations
  | watch
  | version
  deriving DecidableEq, Repr

/-- A command with the options that every command takes. -/
structure Invocation where
  socket : Option String
  store : Option String
  /-- The interactive timeout in seconds. -/
  interactiveTimeout : Option Nat
  unlock : Bool
  json : Bool
  command : Command
  deriving DecidableEq, Repr

/-- Why a command line asks for nothing that can be done. -/
inductive UsageFault where
  /-- The user asks for help. -/
  | help
  | unknownOption (word : String)
  | missingValue (option : String)
  /-- A value for an option that takes none. -/
  | unwantedValue (option : String)
  | badValue (option value : String)
  /-- An option that is there twice. -/
  | repeated (option : String)
  | unwantedWord (word : String)
  | missingOperand (name : String)
  | missingOption (option : String)
  | noCommand
  | unknownCommand (word : String)
  deriving DecidableEq, Repr

/-- The fault in words. -/
def UsageFault.message : UsageFault → String
  | help => "Usage: kpx [OPTIONS] <COMMAND>"
  | unknownOption word => s!"unexpected argument '{word}' found"
  | missingValue option => s!"a value is required for '--{option}'"
  | unwantedValue option => s!"no value is allowed for '--{option}'"
  | badValue option value => s!"invalid value '{value}' for '--{option}'"
  | repeated option => s!"the argument '--{option}' cannot be used multiple times"
  | unwantedWord word => s!"unexpected argument '{word}' found"
  | missingOperand name => s!"the argument <{name}> was not provided"
  | missingOption option => s!"the argument '--{option}' was not provided"
  | noCommand => "a command is required"
  | unknownCommand word => s!"unrecognized command '{word}'"

/-- What an option takes. -/
inductive OptionValue where
  /-- Nothing: the option is a flag. -/
  | nothing
  | text
  /-- A path, which is not empty. -/
  | path
  /-- A whole number below 2^64. -/
  | number
  deriving DecidableEq, Repr

/-- Whether a value is good for an option. -/
def OptionValue.accepts (value : String) : OptionValue → Bool
  | nothing => false
  | text => true
  | path => !value.isEmpty
  | number => (Integer.unsigned64? value).isSome

/-- The options that may stand in some part of a command line. -/
abbrev Options := List (String × OptionValue)

/-- The options that every command takes. -/
def Options.common : Options :=
  [("socket", .path), ("store", .path), ("interactive-timeout", .number), ("unlock", .nothing),
    ("json", .nothing)]

/-- The words of a part of a command line, sorted. -/
structure Words where
  /-- The options with their values; a flag has an empty one. -/
  options : List (String × String) := []
  operands : List String := []

namespace Words

/-- The value of an option. -/
def value? (words : Words) (name : String) : Option String := words.options.lookup name

/-- Whether an option is there. -/
def has (words : Words) (name : String) : Bool := (words.value? name).isSome

/-- Adds an option; it may not be there yet. -/
def give (words : Words) (name value : String) : Except UsageFault Words :=
  if words.has name then .error (.repeated name)
  else .ok { words with options := words.options ++ [(name, value)] }

/-- Adds an option with a value that has to be good for it. -/
def giveValue (words : Words) (name : String) (kind : OptionValue) (value : String) :
    Except UsageFault Words :=
  if kind.accepts value then words.give name value else .error (.badValue name value)

/-- Adds an operand if there is room for one more. -/
def addOperand (words : Words) (room : Nat) (word : String) : Except UsageFault Words :=
  if words.operands.length < room then .ok { words with operands := words.operands ++ [word] }
  else .error (.unwantedWord word)

end Words

/-- What a word on a command line is by its form. -/
inductive WordForm where
  /-- Two dashes, after which every word is an operand. -/
  | mark
  /-- Two dashes with the name of an option, and the value after an equals sign if there is one. -/
  | option (name : String) (attached : Option String)
  /-- A dash with letters. -/
  | letters (first : Char)
  | operand

/-- What a word is by its form; a dash alone is an operand. -/
def WordForm.ofWord (word : String) : WordForm :=
  match word.toList with
  | ['-', '-'] => .mark
  | '-' :: '-' :: cs =>
    match cs.span (· ≠ '=') with
    | (name, []) => .option (String.ofList name) none
    | (name, _ :: value) => .option (String.ofList name) (some (String.ofList value))
  | '-' :: c :: _ => .letters c
  | _ => .operand

namespace Words

/-- Sorts words from left to right; `pending` is an option whose value comes next. There is room for
a number of operands; without one, the first operand ends the part, and the words from it on are
given back. -/
def sortFrom (options : Options) (room : Option Nat) :
    (pending : Option (String × OptionValue)) → (sorted : Words) → List String →
      Except UsageFault (Words × List String)
  | none, sorted, [] => .ok (sorted, [])
  | some (name, _), _, [] => .error (.missingValue name)
  | some (name, kind), sorted, word :: rest =>
    match WordForm.ofWord word with
    | .operand => do
      let sorted ← sorted.giveValue name kind word
      sortFrom options room none sorted rest
    | _ => .error (.missingValue name)
  | none, sorted, word :: rest =>
    match WordForm.ofWord word with
    | .mark => do
      let sorted ← rest.foldlM (fun sorted word => sorted.addOperand (room.getD 0) word) sorted
      return (sorted, [])
    | .letters c => .error (if c = 'h' then .help else .unknownOption word)
    | .operand =>
      match room with
      | none => .ok (sorted, word :: rest)
      | some n => do
        let sorted ← sorted.addOperand n word
        sortFrom options room none sorted rest
    | .option name attached =>
      match options.lookup name, attached with
      | none, none => .error (if name = "help" then .help else .unknownOption word)
      | none, some _ => .error (.unknownOption word)
      | some .nothing, some _ => .error (.unwantedValue name)
      | some .nothing, none => do
        let sorted ← sorted.give name ""
        sortFrom options room none sorted rest
      | some kind, some value => do
        let sorted ← sorted.giveValue name kind value
        sortFrom options room none sorted rest
      | some kind, none => sortFrom options room (some (name, kind)) sorted rest

/-- Sorts the words of a part of a command line. -/
def sort (options : Options) (room : Option Nat) (words : List String) :
    Except UsageFault (Words × List String) := sortFrom options room none {} words

end Words

/-- A command's form: the names of its operands, its own options, and how it is made of them. -/
structure CommandForm where
  name : String
  operands : List String := []
  options : Options := []
  /-- Options that can be left out only if an environment variable fills in. -/
  required : List String := []
  make : (operand : String → String) → (option : String → Option String) → Command

/-- The forms of the commands. -/
def CommandForm.all : List CommandForm :=
  [{ name := "associate", make := fun _ _ => .associate },
    { name := "test-associate", make := fun _ _ => .testAssociate },
    { name := "hash", make := fun _ _ => .hash },
    { name := "logins", operands := ["URL"]
      options := [("submit-url", .text), ("http-auth", .nothing)]
      make := fun operand option =>
        .logins (operand "URL") (option "submit-url") (option "http-auth").isSome },
    { name := "set-login", operands := ["URL"]
      options :=
        [("login", .text), ("password", .text), ("group", .text), ("group-uuid", .text),
          ("uuid", .text)]
      required := ["login", "password"]
      make := fun operand option =>
        .setLogin (operand "URL") ((option "login").getD "") ((option "password").getD "")
          (option "group") (option "group-uuid") (option "uuid") },
    { name := "generate-password", make := fun _ _ => .generatePassword },
    { name := "lock", make := fun _ _ => .lock },
    { name := "groups", make := fun _ _ => .groups },
    { name := "create-group", operands := ["NAME"]
      make := fun operand _ => .createGroup (operand "NAME") },
    { name := "totp", operands := ["UUID"], make := fun operand _ => .totp (operand "UUID") },
    { name := "delete-entry", operands := ["UUID"]
      make := fun operand _ => .deleteEntry (operand "UUID") },
    { name := "autotype", operands := ["URL"]
      make := fun operand _ => .autotype (operand "URL") },
    { name := "associations", make := fun _ _ => .associations },
    { name := "watch", make := fun _ _ => .watch },
    { name := "version", make := fun _ _ => .version }]

/-- The variable that fills in for an option. -/
def optionVariable? : String → Option String
  | "socket" => some "KPX_SOCKET_PATH"
  | "store" => some "KPX_STORE_PATH"
  | "interactive-timeout" => some "KPX_INTERACTIVE_TIMEOUT_SECS"
  | "password" => some "KPX_PASSWORD"
  | _ => none

namespace Words

/-- Fills in the options that are left out and have a variable in the environment. -/
def fillIn (env : Environment) (words : Words) : Options → Except UsageFault Words
  | [] => .ok words
  | (name, kind) :: options => do
    match optionVariable? name >>= env.get? with
    | some value =>
      if words.has name then fillIn env words options
      else fillIn env (← words.giveValue name kind value) options
    | none => fillIn env words options

/-- The operand with a name, among those of a form. -/
def operand (form : CommandForm) (words : Words) (name : String) : String :=
  ((form.operands.zip words.operands).lookup name).getD ""

/-- The command of a form. -/
def command (form : CommandForm) (words : Words) : Except UsageFault Command :=
  match form.operands.drop words.operands.length, form.required.find? (!words.has ·) with
  | name :: _, _ => .error (.missingOperand name)
  | [], some name => .error (.missingOption name)
  | [], none => .ok (form.make (operand form words) words.value?)

end Words

/-- What asking for help with the words behind it comes to: there is help for all commands and for
each of them. -/
def UsageFault.ofHelp : List String → UsageFault
  | [] => .help
  | name :: rest =>
    if name = "help" || CommandForm.all.any (·.name = name) then
      match rest with
      | [] => .help
      | word :: _ => .unknownCommand word
    else .unknownCommand name

/-- The command that a command line means. The values of options common to all commands are taken
from behind the command's name, then from before it, then from the environment. -/
def Invocation.ofWords (env : Environment) (words : List String) :
    Except UsageFault Invocation := do
  let (front, rest) ← Words.sort .common none words
  match rest with
  | [] => throw .noCommand
  | name :: rest =>
    if name = "help" then throw (UsageFault.ofHelp rest)
    let form ← match CommandForm.all.find? fun form => form.name = name with
      | some form => pure form
      | none => throw (.unknownCommand name)
    let options := form.options ++ Options.common
    let (back, _) ← Words.sort options (some form.operands.length) rest
    let backFilled ← back.fillIn env options
    let command ← backFilled.command form
    let frontFilled ← front.fillIn env .common
    let value? (name : String) : Option String :=
      ((back.value? name).or (front.value? name)).or (frontFilled.value? name)
    return { socket := value? "socket", store := value? "store"
             interactiveTimeout := value? "interactive-timeout" >>= Integer.unsigned64?
             unlock := (value? "unlock").isSome, json := (value? "json").isSome, command }

end VaultLink
