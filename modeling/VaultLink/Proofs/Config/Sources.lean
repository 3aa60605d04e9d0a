import VaultLink.Command.Perform
import VaultLink.Proofs.Steps
import VaultLink.Proofs.Text.Integer

/-!
# Where a configuration comes from

An environment is read as a whole and checked (`Config.ofEnvironment_eq_ok_iff`), then the options of an
invocation are put in (`Invocation.overlay`), and then it is checked once more (`Host.config_eq_ok_iff`). A
configuration that passes has timeouts of at least a second and of fewer than `2 ^ 64`
(`Host.exists_timeouts_of_config`).
-/

namespace VaultLink

/-- A number that is read fits 64 bits. -/
theorem Integer.lt_of_unsigned64? {text : String} {n : Nat} (h : unsigned64? text = some n) :
    n < Nat.pow 2 64 := by
  rw [unsigned64?, Option.filter_eq_some_iff] at h
  exact of_decide_eq_true h.2

theorem Duration.ofSeconds_injective : Function.Injective ofSeconds :=
  fun _ _ h => Nat.eq_of_mul_eq_mul_left (by decide) h

/-- No seconds are no time. -/
theorem Duration.ofSeconds_eq_zero_iff {n : Nat} : ofSeconds n = 0 ↔ n = 0 :=
  ofSeconds_injective.eq_iff' rfl

namespace Environment

variable {env env' : Environment} {name : String}

theorem seconds?_of_unset (h : env.get? name = none) : env.seconds? name = .ok none := by
  rw [seconds?, h]

theorem seconds?_of_set {value : String} (h : env.get? name = some value) :
    env.seconds? name = (Integer.unsigned64? (Blank.trim value)).elim
      (.error (.config (.notSeconds name value))) fun n => .ok (some n) := by
  simp only [seconds?, h]
  cases Integer.unsigned64? (Blank.trim value) <;> rfl

theorem seconds?_congr (h : env.get? name = env'.get? name) :
    env.seconds? name = env'.seconds? name := by
  rw [seconds?, seconds?, h]

theorem flag_congr (h : env.get? name = env'.get? name) (default : Bool) :
    env.flag name default = env'.flag name default := by
  rw [flag, flag, h]

theorem lt_of_seconds? {seconds : Option Nat} (h : env.seconds? name = .ok seconds) :
    ∀ n ∈ seconds, n < Nat.pow 2 64 := by
  intro n hn
  cases hget : env.get? name with
  | none =>
    rw [seconds?_of_unset hget] at h
    cases h
    cases hn
  | some value =>
    rw [seconds?_of_set hget] at h
    cases hm : Integer.unsigned64? (Blank.trim value) with
    | none =>
      rw [hm] at h
      cases h
    | some m =>
      rw [hm] at h
      cases h
      cases hn
      exact Integer.lt_of_unsigned64? hm

/-- A variable is the only reason why its seconds cannot be read. -/
theorem exists_fault_of_seconds? {e : Error} (h : env.seconds? name = .error e) :
    ∃ fault, e = .config fault := by
  unfold seconds? at h
  split at h
  · cases h
  · split at h
    · cases h
    · cases h
      exact ⟨_, rfl⟩

end Environment

namespace Config

variable {env : Environment} {present : String → Bool} {config : Config} {e : Error}

theorem validate_eq_ok_iff :
    config.validate = .ok () ↔
      config.requestTimeout ≠ 0 ∧ config.interactiveTimeout ≠ 0 ∧ config.socketPath ≠ "" := by
  unfold validate
  split
  · rename_i h
    simp only [Bool.or_eq_true, decide_eq_true_eq] at h
    exact iff_of_false nofun fun ⟨hr, hi, _⟩ => h.elim hr hi
  · rename_i h
    simp only [Bool.or_eq_true, decide_eq_true_eq, not_or] at h
    split
    · rename_i hs
      exact iff_of_false nofun fun ⟨_, _, hne⟩ => hne (String.isEmpty_iff.1 hs)
    · rename_i hs
      exact iff_of_true rfl ⟨h.1, h.2, fun he => hs (String.isEmpty_iff.2 he)⟩

theorem exists_fault_of_validate (h : config.validate = .error e) : ∃ fault, e = .config fault := by
  unfold validate at h
  split at h
  · cases h
    exact ⟨_, rfl⟩
  · split at h <;> cases h
    exact ⟨_, rfl⟩

/-- Configurations in which the same fields can be used pass the check alike. -/
theorem validate_congr {other : Config}
    (hr : config.requestTimeout = 0 ↔ other.requestTimeout = 0)
    (hi : config.interactiveTimeout = 0 ↔ other.interactiveTimeout = 0)
    (hs : config.socketPath = "" ↔ other.socketPath = "") :
    config.validate = other.validate := by
  simp only [validate, hr, hi, Bool.eq_iff_iff.2 (String.isEmpty_iff.trans (hs.trans
    String.isEmpty_iff.symm))]

/-- The configuration that an environment asks for, with the timeouts that it spells. -/
def drawn (env : Environment) (present : String → Bool) (request interactive : Option Nat) : Config where
  socketPath := (env.get? "KPX_SOCKET_PATH").getD (defaultSocketPath env present)
  storePath := (env.get? "KPX_STORE_PATH").getD (defaultStorePath env)
  requestTimeout := (request.map Duration.ofSeconds).getD (.ofSeconds 5)
  interactiveTimeout := (interactive.map Duration.ofSeconds).getD (.ofSeconds 120)
  triggerUnlock := env.flag "KPX_TRIGGER_UNLOCK" false

/-- The pieces of reading an environment, in their order. -/
theorem ofEnvironment_eq (env : Environment) (present : String → Bool) :
    ofEnvironment env present = (do
      let request ← env.seconds? "KPX_REQUEST_TIMEOUT_SECS"
      let interactive ← env.seconds? "KPX_INTERACTIVE_TIMEOUT_SECS"
      (drawn env present request interactive).validate
      return drawn env present request interactive) := rfl

theorem ofEnvironment_eq_ok_iff :
    ofEnvironment env present = .ok config ↔ ∃ request interactive,
      env.seconds? "KPX_REQUEST_TIMEOUT_SECS" = .ok request ∧
      env.seconds? "KPX_INTERACTIVE_TIMEOUT_SECS" = .ok interactive ∧
      config.validate = .ok () ∧ drawn env present request interactive = config := by
  rw [ofEnvironment_eq]
  simp only [bind_eq_ok]
  constructor
  · rintro ⟨request, hr, interactive, hi, ⟨⟩, hv, hp⟩
    cases hp
    exact ⟨request, interactive, hr, hi, hv, rfl⟩
  · rintro ⟨request, interactive, hr, hi, hv, rfl⟩
    exact ⟨request, hr, interactive, hi, (), hv, rfl⟩

/-- An environment that cannot be used is at fault itself. -/
theorem exists_fault_of_ofEnvironment (h : ofEnvironment env present = .error e) :
    ∃ fault, e = .config fault := by
  rw [ofEnvironment_eq] at h
  rcases bind_eq_error.1 h with h | ⟨request, -, h⟩
  · exact Environment.exists_fault_of_seconds? h
  rcases bind_eq_error.1 h with h | ⟨interactive, -, h⟩
  · exact Environment.exists_fault_of_seconds? h
  rcases bind_eq_error.1 h with h | ⟨⟨⟩, -, h⟩
  · exact exists_fault_of_validate h
  · cases h

end Config

/-- A configuration with the options of an invocation put in. -/
def Invocation.overlay (invocation : Invocation) (base : Config) : Config where
  socketPath := invocation.socket.getD base.socketPath
  storePath := invocation.store.getD base.storePath
  requestTimeout := base.requestTimeout
  interactiveTimeout :=
    (invocation.interactiveTimeout.map Duration.ofSeconds).getD base.interactiveTimeout
  triggerUnlock := base.triggerUnlock || invocation.unlock

/-- The number of seconds that a command line gives fits 64 bits. -/
theorem Invocation.lt_of_ofWords {env : Environment} {words : List String} {invocation : Invocation}
    (h : ofWords env words = .ok invocation) : ∀ n ∈ invocation.interactiveTimeout, n < Nat.pow 2 64 := by
  have hread {value : Option String} : ∀ n ∈ value >>= Integer.unsigned64?, n < Nat.pow 2 64 := by
    intro n hn
    obtain ⟨text, -, hn⟩ := Option.bind_eq_some_iff.1 hn
    exact Integer.lt_of_unsigned64? hn
  unfold ofWords at h
  obtain ⟨⟨front, rest⟩, -, h⟩ := bind_eq_ok.1 h
  simp only at h
  split at h
  · cases h
  · split at h
    · obtain ⟨_, hthrow, -⟩ := bind_eq_ok.1 h
      cases hthrow
    · split at h
      · simp only [bind_eq_ok] at h
        obtain ⟨form, -, ⟨back, _⟩, -, backFilled, -, command, -, frontFilled, -, h⟩ := h
        cases h
        exact hread
      · obtain ⟨_, hthrow, -⟩ := bind_eq_ok.1 h
        cases hthrow

namespace Host

variable {host : Host} {invocation : Invocation} {config : Config}

/-- Whether a path can be the socket's before the proxy is asked: something listens there. -/
def hears (host : Host) (path : String) : Bool := (host.listener path).isSome

theorem config_eq (host : Host) (invocation : Invocation) :
    host.config invocation = (do
      let base ← Config.ofEnvironment host.env host.hears
      (invocation.overlay base).validate
      return invocation.overlay base) := rfl

theorem config_eq_ok_iff :
    host.config invocation = .ok config ↔ ∃ base,
      Config.ofEnvironment host.env host.hears = .ok base ∧ config.validate = .ok () ∧
      invocation.overlay base = config := by
  rw [config_eq]
  simp only [bind_eq_ok]
  constructor
  · rintro ⟨base, hb, ⟨⟩, hv, hp⟩
    cases hp
    exact ⟨base, hb, hv, rfl⟩
  · rintro ⟨base, hb, hv, rfl⟩
    exact ⟨base, hb, (), hv, rfl⟩

/-- The timeouts of a configuration that passes are whole seconds, at least one and fewer than `2 ^ 64`. -/
theorem exists_timeouts_of_config (hi : ∀ n ∈ invocation.interactiveTimeout, n < Nat.pow 2 64)
    (hc : host.config invocation = .ok config) :
    ∃ request interactive, config.requestTimeout = .ofSeconds request ∧
      config.interactiveTimeout = .ofSeconds interactive ∧
      0 < request ∧ request < Nat.pow 2 64 ∧ 0 < interactive ∧ interactive < Nat.pow 2 64 := by
  -- What fills in for a number that is left out is one of the default timeouts.
  have hfill {seconds : Option Nat} (h : ∀ n ∈ seconds, n < Nat.pow 2 64) (usual : Nat)
      (husual : usual < Nat.pow 2 64) :
      ∃ n < Nat.pow 2 64, (seconds.map Duration.ofSeconds).getD (.ofSeconds usual) = .ofSeconds n := by
    cases seconds with
    | none => exact ⟨usual, husual, rfl⟩
    | some n => exact ⟨n, h n rfl, rfl⟩
  have hpos {n : Nat} (h : Duration.ofSeconds n ≠ 0) : 0 < n :=
    Nat.pos_of_ne_zero (mt Duration.ofSeconds_eq_zero_iff.2 h)
  obtain ⟨base, hb, hv, rfl⟩ := config_eq_ok_iff.1 hc
  obtain ⟨fromRequest, fromInteractive, hr, hn, -, rfl⟩ := Config.ofEnvironment_eq_ok_iff.1 hb
  obtain ⟨hvr, hvi, -⟩ := Config.validate_eq_ok_iff.1 hv
  obtain ⟨request, hlt, hrequest⟩ :=
    hfill (Environment.lt_of_seconds? hr) 5 (by decide)
  obtain ⟨usual, husual, hbase⟩ :=
    hfill (Environment.lt_of_seconds? hn) 120 (by decide)
  obtain ⟨interactive, hlt', hinteractive⟩ := hfill hi usual husual
  have hr' : (invocation.overlay (Config.drawn host.env host.hears fromRequest
      fromInteractive)).requestTimeout = .ofSeconds request := hrequest
  have hi' : (invocation.overlay (Config.drawn host.env host.hears fromRequest
      fromInteractive)).interactiveTimeout = .ofSeconds interactive := by
    rw [← hinteractive, ← hbase]
    rfl
  exact ⟨request, interactive, hr', hi', hpos (hr' ▸ hvr), hlt, hpos (hi' ▸ hvi), hlt'⟩

end Host

end VaultLink
