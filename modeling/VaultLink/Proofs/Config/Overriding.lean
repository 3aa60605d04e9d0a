import VaultLink.Proofs.Config.Sources

/-!
# Options stand in for variables

An option of a command line stands in for a variable of the environment. What the variable holds makes no
difference to the configuration then, unless it is a value with which the environment itself cannot be
used: an empty socket path, or an interactive timeout that is zero or no number. With such a value there is
no configuration, since the environment is checked before the options are put in (`Host.config_overrides`).
-/

namespace VaultLink

/-- An option of the invocation stands in for the variable of a name. -/
inductive Invocation.Replaces (invocation : Invocation) (name : String) : Prop
  | socket : invocation.socket.isSome → optionVariable? "socket" = some name →
    Replaces invocation name
  | store : invocation.store.isSome → optionVariable? "store" = some name →
    Replaces invocation name
  | interactiveTimeout : invocation.interactiveTimeout.isSome →
    optionVariable? "interactive-timeout" = some name → Replaces invocation name

theorem Invocation.Replaces.name_mem {invocation : Invocation} {name : String}
    (h : invocation.Replaces name) :
    name ∈ ["KPX_SOCKET_PATH", "KPX_STORE_PATH", "KPX_INTERACTIVE_TIMEOUT_SECS"] := by
  cases h with
  | socket _ h | store _ h | interactiveTimeout _ h => cases h; simp

theorem Invocation.replaces_socket {invocation : Invocation} :
    invocation.Replaces "KPX_SOCKET_PATH" ↔ invocation.socket.isSome := by
  refine ⟨fun h => ?_, fun h => .socket h rfl⟩
  cases h with
  | socket h => exact h
  | store _ h | interactiveTimeout _ h => exact absurd h (by decide)

theorem Invocation.replaces_store {invocation : Invocation} :
    invocation.Replaces "KPX_STORE_PATH" ↔ invocation.store.isSome := by
  refine ⟨fun h => ?_, fun h => .store h rfl⟩
  cases h with
  | store h => exact h
  | socket _ h | interactiveTimeout _ h => exact absurd h (by decide)

theorem Invocation.replaces_interactiveTimeout {invocation : Invocation} :
    invocation.Replaces "KPX_INTERACTIVE_TIMEOUT_SECS" ↔ invocation.interactiveTimeout.isSome := by
  refine ⟨fun h => ?_, fun h => .interactiveTimeout h rfl⟩
  cases h with
  | interactiveTimeout h => exact h
  | socket _ h | store _ h => exact absurd h (by decide)

/-- What the variable of a name holds cannot be used. -/
inductive Environment.Spoils (env : Environment) (name : String) : Prop
  | noPath : name = "KPX_SOCKET_PATH" → env.get? name = some "" → Spoils env name
  | noNumber {value : String} : name = "KPX_INTERACTIVE_TIMEOUT_SECS" → env.get? name = some value →
    Integer.unsigned64? (Blank.trim value) = none → Spoils env name
  | noTime {value : String} : name = "KPX_INTERACTIVE_TIMEOUT_SECS" → env.get? name = some value →
    Integer.unsigned64? (Blank.trim value) = some 0 → Spoils env name

/-! ## Default places -/

theorem below_ne_empty {path : String} (h : path ≠ "") (directory : String) :
    below directory path ≠ "" := by
  unfold below FilePath.join
  split
  · exact h
  · split
    · exact fun he => h (String.append_eq_empty_iff.1 he).2
    · exact fun he => h (String.append_eq_empty_iff.1 he).2

theorem serverName_ne_empty : serverName ≠ "" := by decide

theorem ne_empty_of_mem_socketCandidates {runtimeDir home tmpDir : Option String} {path : String}
    (h : path ∈ socketCandidates runtimeDir home tmpDir) : path ≠ "" := by
  have hbelow (directory : String) : below directory serverName ≠ "" :=
    below_ne_empty serverName_ne_empty directory
  unfold socketCandidates at h
  simp only [List.mem_append, List.mem_singleton] at h
  rcases h with ((h | h) | h) | rfl
  · cases runtimeDir with
    | none => cases h
    | some =>
      simp only [List.mem_cons, List.not_mem_nil, or_false] at h
      rcases h with rfl | rfl <;> exact hbelow _
  · cases home with
    | none => cases h
    | some => exact List.mem_singleton.1 h ▸ hbelow _
  · cases tmpDir with
    | none => cases h
    | some => exact List.mem_singleton.1 h ▸ hbelow _
  · exact hbelow _

theorem defaultSocketPath_ne_empty (env : Environment) (present : String → Bool) :
    defaultSocketPath env present ≠ "" := by
  unfold defaultSocketPath
  simp only
  split
  · rename_i h
    exact ne_empty_of_mem_socketCandidates (List.mem_of_find?_eq_some h)
  · split <;> exact below_ne_empty serverName_ne_empty _

namespace Config

variable {env env' : Environment} {present : String → Bool} {invocation : Invocation}

theorem defaultSocketPath_congr (hr : env.get? "XDG_RUNTIME_DIR" = env'.get? "XDG_RUNTIME_DIR")
    (hh : env.get? "HOME" = env'.get? "HOME") (ht : env.get? "TMPDIR" = env'.get? "TMPDIR")
    (present : String → Bool) : defaultSocketPath env present = defaultSocketPath env' present := by
  simp only [defaultSocketPath, hr, hh, ht]

theorem defaultStorePath_congr (hc : env.get? "XDG_CONFIG_HOME" = env'.get? "XDG_CONFIG_HOME")
    (hh : env.get? "HOME" = env'.get? "HOME") : defaultStorePath env = defaultStorePath env' := by
  simp only [defaultStorePath, hc, hh]

/-! ## Configurations that differ where options stand in -/

/-- Configurations that an invocation does not tell apart: they differ only in what its options replace,
and pass the check alike. -/
structure Alike (invocation : Invocation) (config other : Config) : Prop where
  socketPath : invocation.socket = none → config.socketPath = other.socketPath
  storePath : invocation.store = none → config.storePath = other.storePath
  requestTimeout : config.requestTimeout = other.requestTimeout
  interactiveTimeout : invocation.interactiveTimeout = none →
    config.interactiveTimeout = other.interactiveTimeout
  triggerUnlock : config.triggerUnlock = other.triggerUnlock
  validate : config.validate = other.validate

theorem Alike.overlay_eq {config other : Config} (h : Alike invocation config other) :
    invocation.overlay config = invocation.overlay other := by
  have hover {α : Type} {option : Option α} {x y : α} (h : option = none → x = y) :
      option.getD x = option.getD y := by
    cases option with
    | none => exact h rfl
    | some => rfl
  simp only [Invocation.overlay, hover h.socketPath, hover h.storePath, h.requestTimeout,
    hover fun hi => h.interactiveTimeout (Option.map_eq_none_iff.1 hi), h.triggerUnlock]

/-- The seconds of a variable that is not spoiled are some other number than zero, or unset. -/
theorem exists_seconds_of_not_spoils (h : ¬ env.Spoils "KPX_INTERACTIVE_TIMEOUT_SECS") :
    ∃ seconds, env.seconds? "KPX_INTERACTIVE_TIMEOUT_SECS" = .ok seconds ∧ seconds ≠ some 0 := by
  cases hget : env.get? "KPX_INTERACTIVE_TIMEOUT_SECS" with
  | none => exact ⟨none, Environment.seconds?_of_unset hget, nofun⟩
  | some value =>
    have hset := Environment.seconds?_of_set hget
    cases hn : Integer.unsigned64? (Blank.trim value) with
    | none => exact absurd (.noNumber rfl hget hn) h
    | some n =>
      rw [hn] at hset
      refine ⟨some n, hset, fun hzero => h (.noTime rfl hget ?_)⟩
      rw [hn, hzero]

/-- Without a number of seconds that is zero, a timeout is not zero. -/
theorem timeout_ne_zero {seconds : Option Nat} (h : seconds ≠ some 0) {usual : Nat}
    (husual : usual ≠ 0) : (seconds.map Duration.ofSeconds).getD (.ofSeconds usual) ≠ 0 := by
  cases seconds with
  | none => exact mt Duration.ofSeconds_eq_zero_iff.1 husual
  | some n => exact mt Duration.ofSeconds_eq_zero_iff.1 fun hz => h (congrArg some hz)

/-- A socket path that is not spoiled is not empty. -/
theorem socketPath_ne_empty (h : ¬ env.Spoils "KPX_SOCKET_PATH") :
    (env.get? "KPX_SOCKET_PATH").getD (defaultSocketPath env present) ≠ "" := by
  cases hget : env.get? "KPX_SOCKET_PATH" with
  | none => exact defaultSocketPath_ne_empty env present
  | some path =>
    rintro rfl
    exact h (.noPath rfl hget)

/-- An environment that can be used gives a configuration. -/
theorem exists_ofEnvironment {request : Option Nat}
    (hr : env.seconds? "KPX_REQUEST_TIMEOUT_SECS" = .ok request) (hne : request ≠ some 0)
    (hs : ∀ name, ¬ env.Spoils name) (present : String → Bool) :
    ∃ interactive, env.seconds? "KPX_INTERACTIVE_TIMEOUT_SECS" = .ok interactive ∧
      ofEnvironment env present = .ok (drawn env present request interactive) := by
  obtain ⟨interactive, hi, hni⟩ := exists_seconds_of_not_spoils (hs _)
  refine ⟨interactive, hi, ofEnvironment_eq_ok_iff.2 ⟨request, interactive, hr, hi, ?_, rfl⟩⟩
  exact validate_eq_ok_iff.2 ⟨timeout_ne_zero hne (by decide), timeout_ne_zero hni (by decide),
    socketPath_ne_empty (hs _)⟩

/-- An environment with a spoiled variable gives no configuration. -/
theorem ofEnvironment_ne_ok_of_spoils {name : String} (h : env.Spoils name) (config : Config) :
    ofEnvironment env present ≠ .ok config := by
  intro hok
  obtain ⟨request, interactive, -, hi, hv, rfl⟩ := ofEnvironment_eq_ok_iff.1 hok
  obtain ⟨-, hinteractive, hsocket⟩ := validate_eq_ok_iff.1 hv
  cases h with
  | noPath hname h =>
    subst hname
    refine hsocket ?_
    rw [drawn, h]
    rfl
  | noNumber hname h hn =>
    subst hname
    rw [Environment.seconds?_of_set h, hn] at hi
    cases hi
  | noTime hname h hn =>
    subst hname
    rw [Environment.seconds?_of_set h, hn] at hi
    cases hi
    exact hinteractive rfl

/-- Environments that agree but for what an invocation replaces, none of which is spoiled there, and that
spell the same request timeout give configurations that the invocation does not tell apart. -/
theorem alike_drawn
    (h : ∀ name, ¬ invocation.Replaces name → env.get? name = env'.get? name)
    (hs : ∀ name, invocation.Replaces name → ¬ env.Spoils name ∧ ¬ env'.Spoils name)
    {request interactive interactive' : Option Nat}
    (hi : env.seconds? "KPX_INTERACTIVE_TIMEOUT_SECS" = .ok interactive)
    (hi' : env'.seconds? "KPX_INTERACTIVE_TIMEOUT_SECS" = .ok interactive') :
    Alike invocation (drawn env present request interactive)
      (drawn env' present request interactive') := by
  have hother {name : String} (hn : name ∉ ["KPX_SOCKET_PATH", "KPX_STORE_PATH",
      "KPX_INTERACTIVE_TIMEOUT_SECS"]) : env.get? name = env'.get? name :=
    h name fun hr => hn hr.name_mem
  have hsocket (hr : ¬ invocation.Replaces "KPX_SOCKET_PATH") :
      (drawn env present request interactive).socketPath =
        (drawn env' present request interactive').socketPath := by
    rw [drawn, drawn, h _ hr, defaultSocketPath_congr (hother (by decide)) (hother (by decide))
      (hother (by decide))]
  have hinteractive (hr : ¬ invocation.Replaces "KPX_INTERACTIVE_TIMEOUT_SECS") :
      interactive = interactive' := by
    rw [Environment.seconds?_congr (h _ hr), hi'] at hi
    exact (Except.ok.inj hi).symm
  have hpositive {env : Environment} {seconds : Option Nat}
      (hn : ¬ env.Spoils "KPX_INTERACTIVE_TIMEOUT_SECS")
      (hi : env.seconds? "KPX_INTERACTIVE_TIMEOUT_SECS" = .ok seconds) :
      (seconds.map Duration.ofSeconds).getD (.ofSeconds 120) ≠ 0 := by
    obtain ⟨_, hi', hne⟩ := exists_seconds_of_not_spoils hn
    rw [hi] at hi'
    cases hi'
    exact timeout_ne_zero hne (by decide)
  refine ⟨fun hn => hsocket fun hr => ?_, fun hn => ?_, rfl, fun hn => ?_, ?_, ?_⟩
  · rw [Invocation.replaces_socket, hn] at hr
    cases hr
  · have hr : ¬ invocation.Replaces "KPX_STORE_PATH" := by
      rw [Invocation.replaces_store, hn]
      exact Bool.false_ne_true
    rw [drawn, drawn, h _ hr, defaultStorePath_congr (hother (by decide)) (hother (by decide))]
  · have hr : ¬ invocation.Replaces "KPX_INTERACTIVE_TIMEOUT_SECS" := by
      rw [Invocation.replaces_interactiveTimeout, hn]
      exact Bool.false_ne_true
    rw [drawn, drawn, hinteractive hr]
  · exact Environment.flag_congr (hother (by decide)) false
  · refine validate_congr Iff.rfl ?_ ?_
    · by_cases hr : invocation.Replaces "KPX_INTERACTIVE_TIMEOUT_SECS"
      · exact iff_of_false (hpositive (hs _ hr).1 hi) (hpositive (hs _ hr).2 hi')
      · rw [drawn, drawn, hinteractive hr]
    · by_cases hr : invocation.Replaces "KPX_SOCKET_PATH"
      · exact iff_of_false (socketPath_ne_empty (hs _ hr).1) (socketPath_ne_empty (hs _ hr).2)
      · rw [hsocket hr]

/-- Such environments spell an interactive timeout both, or fail alike. -/
theorem seconds?_cases (h : ∀ name, ¬ invocation.Replaces name → env.get? name = env'.get? name)
    (hs : ∀ name, invocation.Replaces name → ¬ env.Spoils name ∧ ¬ env'.Spoils name) :
    (∃ e, env.seconds? "KPX_INTERACTIVE_TIMEOUT_SECS" = .error e ∧
      env'.seconds? "KPX_INTERACTIVE_TIMEOUT_SECS" = .error e) ∨
    ∃ interactive interactive', env.seconds? "KPX_INTERACTIVE_TIMEOUT_SECS" = .ok interactive ∧
      env'.seconds? "KPX_INTERACTIVE_TIMEOUT_SECS" = .ok interactive' := by
  by_cases hr : invocation.Replaces "KPX_INTERACTIVE_TIMEOUT_SECS"
  · obtain ⟨interactive, hi, -⟩ := exists_seconds_of_not_spoils (hs _ hr).1
    obtain ⟨interactive', hi', -⟩ := exists_seconds_of_not_spoils (hs _ hr).2
    exact .inr ⟨interactive, interactive', hi, hi'⟩
  · rw [Environment.seconds?_congr (h _ hr)]
    cases env'.seconds? "KPX_INTERACTIVE_TIMEOUT_SECS" with
    | error e => exact .inl ⟨e, rfl, rfl⟩
    | ok interactive => exact .inr ⟨interactive, interactive, rfl, rfl⟩

end Config

/-- The invocation of a command with nothing but an interactive timeout. -/
def Invocation.hashWithin (seconds : Nat) : Invocation where
  socket := none
  store := none
  interactiveTimeout := some seconds
  unlock := false
  json := false
  command := .hash

namespace Host

/-- What a variable holds makes no difference to the configuration if an option stands in for it, unless
the environment cannot be used with it. Then there is no configuration whatever the options are: what is
wrong with the environment is told before they are put in. -/
theorem config_overrides (host : Host) (env : Environment) (invocation : Invocation)
    (h : ∀ name, ¬ invocation.Replaces name → env.get? name = host.env.get? name) :
    ((∀ name, invocation.Replaces name → ¬ env.Spoils name ∧ ¬ host.env.Spoils name) →
      ({ host with env } : Host).config invocation = host.config invocation) ∧
    (∀ name, invocation.Replaces name → env.Spoils name →
      ∃ fault, Config.ofEnvironment env host.hears = .error (.config fault) ∧
        ({ host with env } : Host).config invocation = .error (.config fault)) := by
  have hconfig : ({ host with env } : Host).config invocation = (do
      let base ← Config.ofEnvironment env host.hears
      (invocation.overlay base).validate
      return invocation.overlay base) := rfl
  rw [hconfig]
  constructor
  · intro hs
    have hrequest : env.seconds? "KPX_REQUEST_TIMEOUT_SECS" =
        host.env.seconds? "KPX_REQUEST_TIMEOUT_SECS" :=
      Environment.seconds?_congr (h _ fun hr => absurd hr.name_mem (by decide))
    rw [config_eq, Config.ofEnvironment_eq, Config.ofEnvironment_eq, hrequest]
    cases host.env.seconds? "KPX_REQUEST_TIMEOUT_SECS" with
    | error e => rfl
    | ok request =>
      rcases Config.seconds?_cases h hs with ⟨e, hi, hi'⟩ | ⟨interactive, interactive', hi, hi'⟩
      · rw [hi, hi']
        rfl
      · have halike : Config.Alike invocation (Config.drawn env host.hears request interactive)
            (Config.drawn host.env host.hears request interactive') := Config.alike_drawn h hs hi hi'
        rw [hi, hi']
        simp only [bind, Except.bind, halike.validate]
        cases (Config.drawn host.env host.hears request interactive').validate with
        | error e => rfl
        | ok =>
          simp only [pure, Except.pure, halike.overlay_eq]
  · intro name _ hs
    cases hbase : Config.ofEnvironment env host.hears with
    | ok base => exact absurd hbase (Config.ofEnvironment_ne_ok_of_spoils hs base)
    | error e =>
      obtain ⟨fault, rfl⟩ := Config.exists_fault_of_ofEnvironment hbase
      exact ⟨fault, rfl, rfl⟩

/-- A program that finds an environment and nothing else. -/
def within (env : Environment) : Host where
  env
  files := { nodes := [] }
  entropy := .ofBytes []
  listener _ := none

/-- An environment with an interactive timeout and nothing else. -/
def patience (value : String) : Environment := [("KPX_INTERACTIVE_TIMEOUT_SECS", value)]

theorem not_spoils_patience {value : String} {n : Nat}
    (hn : Integer.unsigned64? (Blank.trim value) = some (n + 1)) (name : String) :
    ¬ (patience value).Spoils name := by
  intro h
  cases h with
  | noPath hname hget =>
    subst hname
    cases hget
  | noNumber hname hget h | noTime hname hget h =>
    subst hname
    cases hget
    rw [hn] at h
    cases h

/-- A command line with a timeout of its own, which means `Invocation.hashWithin 30`. -/
def timed : List String := ["--interactive-timeout", "30", "hash"]

theorem replaces_timed : (Invocation.hashWithin 30).Replaces "KPX_INTERACTIVE_TIMEOUT_SECS" :=
  .interactiveTimeout rfl rfl

/-- What the command line does not replace is the same in such environments. -/
theorem get?_patience {name : String} (h : ¬ (Invocation.hashWithin 30).Replaces name)
    (value value' : String) : (patience value).get? name = (patience value').get? name := by
  have hne : (name == "KPX_INTERACTIVE_TIMEOUT_SECS") = false :=
    beq_false_of_ne fun he => h (he ▸ replaces_timed)
  simp only [patience, Environment.get?, List.lookup_cons, hne]

/-- A timeout that is given twice, with a variable that may hold another number but not zero. -/
theorem config_overrides_timed :
    let invocation := Invocation.hashWithin 30
    let host := within (patience "7")
    (∀ value ∈ ["7", "+90", "0"], Invocation.ofWords (patience value) timed = .ok invocation) ∧
    (∀ name, ¬ invocation.Replaces name → (patience "+90").get? name = host.env.get? name) ∧
    (∀ name, invocation.Replaces name → ¬ (patience "+90").Spoils name ∧ ¬ host.env.Spoils name) ∧
    ({ host with env := patience "+90" } : Host).config invocation = host.config invocation ∧
    (patience "0").Spoils "KPX_INTERACTIVE_TIMEOUT_SECS" ∧
    ∃ fault, ({ host with env := patience "0" } : Host).config invocation =
      .error (.config fault) := by
  intro invocation host
  have hwords : ∀ value ∈ ["7", "+90", "0"],
      Invocation.ofWords (patience value) timed = .ok invocation := by
    simp only [List.mem_cons, List.not_mem_nil, or_false]
    rintro _ (rfl | rfl | rfl) <;> rfl
  have hagree (value : String) :
      ∀ name, ¬ invocation.Replaces name → (patience value).get? name = host.env.get? name :=
    fun _ h => get?_patience h value "7"
  have hs : ∀ name, invocation.Replaces name →
      ¬ (patience "+90").Spoils name ∧ ¬ host.env.Spoils name := fun name _ =>
    ⟨not_spoils_patience (n := 89) (by decide) name, not_spoils_patience (n := 6) (by decide) name⟩
  have hzero : (patience "0").Spoils "KPX_INTERACTIVE_TIMEOUT_SECS" := .noTime rfl rfl (by decide)
  obtain ⟨fault, -, hfault⟩ :=
    (config_overrides host (patience "0") invocation (hagree "0")).2 _ replaces_timed hzero
  exact ⟨hwords, hagree "+90", hs,
    (config_overrides host (patience "+90") invocation (hagree "+90")).1 hs, hzero, fault, hfault⟩

/-- A variable that an option replaces can still make a difference: with zero seconds there is no
configuration. -/
theorem not_forall_config_eq :
    ¬ ∀ (host : Host) (env : Environment) (invocation : Invocation),
      (∀ name, ¬ invocation.Replaces name → env.get? name = host.env.get? name) →
      ({ host with env } : Host).config invocation = host.config invocation := by
  intro hall
  let host := within (patience "7")
  have hsame := hall host (patience "0") (.hashWithin 30) fun _ h => get?_patience h "0" "7"
  have hzero : ({ host with env := patience "0" } : Host).config (.hashWithin 30) =
      .error (.config .zeroTimeout) := rfl
  have hs : ∀ name, ¬ host.env.Spoils name := not_spoils_patience (n := 6) (by decide)
  have hrequest : host.env.seconds? "KPX_REQUEST_TIMEOUT_SECS" = .ok none := rfl
  obtain ⟨interactive, -, hbase⟩ := Config.exists_ofEnvironment hrequest nofun hs host.hears
  have hvalid : ((Invocation.hashWithin 30).overlay
      (Config.drawn host.env host.hears none interactive)).validate = .ok () :=
    Config.validate_eq_ok_iff.2 ⟨@Config.timeout_ne_zero none nofun 5 (by decide),
      @Config.timeout_ne_zero (some 30) (by decide) 120 (by decide),
      @Config.socketPath_ne_empty _ host.hears (hs _)⟩
  rw [hzero, config_eq_ok_iff.2 ⟨_, hbase, hvalid, rfl⟩] at hsame
  cases hsame

end Host

end VaultLink
