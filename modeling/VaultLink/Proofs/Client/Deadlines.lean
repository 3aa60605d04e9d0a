import VaultLink.Proofs.Client.Submission
import VaultLink.Proofs.Client.Waiting
import VaultLink.Proofs.Config.Overriding
import VaultLink.Proofs.Proxy.Decoding

/-!
# Deadlines that the clock cannot show

The clock counts fewer than `2 ^ 63` seconds. A run of the program takes every number of seconds from one
up to `2 ^ 64 - 1` for either timeout (`Config.exists_comes_iff`), so the deadline of a wait may lie behind
the last time that the clock can show. Just then the wait is given up before it starts
(`Client.awaitReply_deadlineOverflow`).
-/

namespace VaultLink

/-- A run of the program can come to a configuration: what the run finds and the words of its command line
are read, and the configuration passes. -/
def Config.Comes (config : Config) : Prop :=
  ∃ (host : Host) (words : List String) (invocation : Invocation),
    Invocation.ofWords host.env words = .ok invocation ∧ host.config invocation = .ok config

/-- The digits of a number that fits 64 bits are a number of seconds. -/
theorem Environment.seconds?_of_digits {env : Environment} {name : String} {n : Nat}
    (h : env.get? name = some (String.ofList (Decimal.digitsOf n))) (hn : n < Nat.pow 2 64) :
    env.seconds? name = .ok (some n) := by
  rw [seconds?_of_set h, (Integer.unsigned64?_trim_digitsOf hn).1, Option.elim_some]

namespace Words

variable {env : Environment} {words : Words} {name value : String} {kind : OptionValue}

/-- An option without a variable in the environment is left out. -/
theorem fillIn_of_unset (h : optionVariable? name >>= env.get? = none) (options : Options) :
    fillIn env words ((name, kind) :: options) = fillIn env words options := by
  rw [fillIn, h]

/-- An option that was left out and has a variable with a good value is filled in. -/
theorem fillIn_of_set (h : optionVariable? name >>= env.get? = some value) (hn : words.has name = false)
    (ha : kind.accepts value = true) (options : Options) :
    fillIn env words ((name, kind) :: options) =
      fillIn env { words with options := words.options ++ [(name, value)] } options := by
  rw [fillIn, h]
  simp only [hn, Bool.false_eq_true, if_false, giveValue, ha, if_true, give, bind, Except.bind]

end Words

/-- An environment with both timeouts, in seconds. -/
def Environment.timeouts (request interactive : Nat) : Environment :=
  [("KPX_REQUEST_TIMEOUT_SECS", String.ofList (Decimal.digitsOf request)),
    ("KPX_INTERACTIVE_TIMEOUT_SECS", String.ofList (Decimal.digitsOf interactive))]

/-- The form of a command without operands and options of its own. -/
def CommandForm.hash : CommandForm where
  name := "hash"
  make := fun _ _ => .hash

/-- The command takes the interactive timeout from the environment. -/
theorem Invocation.ofWords_hash {interactive : Nat} (h : interactive < Nat.pow 2 64) (request : Nat) :
    ofWords (.timeouts request interactive) ["hash"] = .ok (hashWithin interactive) := by
  have hread := (Integer.unsigned64?_trim_digitsOf h).2
  have haccept : OptionValue.number.accepts (String.ofList (Decimal.digitsOf interactive)) = true := by
    rw [OptionValue.accepts, hread]
    rfl
  have hfill : Words.fillIn (.timeouts request interactive) {} .common = .ok
      { options := [("interactive-timeout", String.ofList (Decimal.digitsOf interactive))] } := by
    rw [Options.common, Words.fillIn_of_unset rfl, Words.fillIn_of_unset rfl,
      Words.fillIn_of_set rfl rfl haccept, Words.fillIn_of_unset rfl, Words.fillIn_of_unset rfl]
    rfl
  -- What stands before the command's name, the command, and what stands behind it.
  have hfront : Words.sort .common none ["hash"] = .ok ({}, ["hash"]) := rfl
  have hname : "hash" ≠ "help" := by decide
  have hform : CommandForm.all.find? (fun form => form.name = "hash") = some CommandForm.hash := rfl
  have hoptions : CommandForm.hash.options ++ Options.common = .common := rfl
  have hback : Words.sort .common (some CommandForm.hash.operands.length) [] = .ok ({}, []) := rfl
  simp only [Invocation.ofWords, hfront, bind, Except.bind, if_neg hname, hform, pure, Except.pure,
    hoptions, hback, hfill]
  rw [hashWithin, ← hread]
  rfl

namespace Config

variable {request interactive : Nat}

/-- Every two numbers of seconds that are not zero and fit 64 bits are the timeouts of a configuration, and
no others are. -/
theorem exists_comes_iff :
    (∃ config : Config, config.Comes ∧ config.requestTimeout = .ofSeconds request ∧
        config.interactiveTimeout = .ofSeconds interactive) ↔
      (0 < request ∧ request < Nat.pow 2 64) ∧ 0 < interactive ∧ interactive < Nat.pow 2 64 := by
  constructor
  · rintro ⟨config, ⟨host, words, invocation, hw, hc⟩, hr, hi⟩
    obtain ⟨n, m, hn, hm, hpos, hlt, hpos', hlt'⟩ :=
      Host.exists_timeouts_of_config (Invocation.lt_of_ofWords hw) hc
    obtain rfl : request = n := Duration.ofSeconds_injective (hr.symm.trans hn)
    obtain rfl : interactive = m := Duration.ofSeconds_injective (hi.symm.trans hm)
    exact ⟨⟨hpos, hlt⟩, hpos', hlt'⟩
  · rintro ⟨⟨hpos, hlt⟩, hpos', hlt'⟩
    have hvalid (base : Config) (hr : base.requestTimeout = .ofSeconds request)
        (hi : base.interactiveTimeout = .ofSeconds interactive) (hs : base.socketPath ≠ "") :
        base.validate = .ok () :=
      validate_eq_ok_iff.2 ⟨hr ▸ mt Duration.ofSeconds_eq_zero_iff.1 (Nat.ne_of_gt hpos),
        hi ▸ mt Duration.ofSeconds_eq_zero_iff.1 (Nat.ne_of_gt hpos'), hs⟩
    let host := Host.within (.timeouts request interactive)
    let base := drawn host.env host.hears (some request) (some interactive)
    have hsocket : base.socketPath ≠ "" := defaultSocketPath_ne_empty host.env host.hears
    have hbase := ofEnvironment_eq_ok_iff.2 ⟨some request, some interactive,
      Environment.seconds?_of_digits rfl hlt, Environment.seconds?_of_digits rfl hlt',
      hvalid base rfl rfl hsocket, rfl⟩
    have hconfig : host.config (.hashWithin interactive) = .ok _ := Host.config_eq_ok_iff.2
      ⟨base, hbase, hvalid ((Invocation.hashWithin interactive).overlay base) rfl rfl hsocket, rfl⟩
    exact ⟨_, ⟨host, _, _, Invocation.ofWords_hash hlt' request, hconfig⟩, rfl, rfl⟩

end Config

/-- A wait ends behind the last time that the clock can show just if its seconds and those that have passed
are too many. -/
theorem Instant.beyond_le_iff {clock : Instant} {seconds : Nat} :
    Instant.beyond ≤ clock + Duration.ofSeconds seconds ↔ Nat.pow 2 63 ≤ clock / 1000 + seconds := by
  show 1000 * Nat.pow 2 63 ≤ (clock : Nat) + 1000 * seconds ↔ _
  omega

namespace Client

open Link (Received)

variable {σ : Type}

/-- What a link brings never makes the deadline one that the clock cannot show. -/
theorem conclude_ne_deadlineOverflow {deadline : Instant} {link link' : Link} {signals : List Signal}
    {received : Received} (hb : link.Brings deadline signals received link') (action : Action)
    (wait : Duration) : conclude action wait received ≠ .error .deadlineOverflow := by
  intro h
  cases received with
  | failed e =>
    obtain ⟨last, hr, -⟩ := hb.exists_receive
    cases h
    cases Link.fails_of_receive hr
  | late | never => cases h
  | message text =>
    rcases hd : Inbound.decode text with e | inbound <;> simp only [conclude, hd] at h
    · obtain ⟨cause, rfl⟩ := Inbound.decode_eq_error hd
      cases h
    · split at h <;> cases h

/-- A wait is given up for its deadline just if the clock cannot show it, and then nothing has happened. -/
theorem awaitReply_eq_deadlineOverflow_iff {action : Action} {wait : Duration} {c c' : Client σ} :
    awaitReply action wait c = .error .deadlineOverflow c' ↔
      c' = c ∧ Instant.beyond ≤ c.link.clock + wait := by
  by_cases hlt : c.link.clock + wait < Instant.beyond
  · have hd : c.deadline? wait = some (c.link.clock + wait) := if_pos hlt
    obtain ⟨signals, received, link, hb⟩ := Link.exists_brings (c.link.clock + wait) c.link
    rw [awaitReply_of_deadline hd hb]
    refine iff_of_false (fun h => ?_) fun ⟨_, hle⟩ => Nat.not_le.2 hlt hle
    refine conclude_ne_deadlineOverflow hb action wait ?_
    rcases hc : conclude action wait received with e | inbound <;> rw [hc] at h <;> cases h
    rfl
  · rw [awaitReply_of_no_deadline (if_neg hlt)]
    refine ⟨fun h => ?_, fun ⟨h, _⟩ => by rw [h]⟩
    cases h
    exact ⟨rfl, Nat.not_lt.1 hlt⟩

theorem timeoutFor_eq {config : Config} {request interactive : Nat}
    (hr : config.requestTimeout = .ofSeconds request)
    (hi : config.interactiveTimeout = .ofSeconds interactive) (action : Action) (triggerUnlock : Bool) :
    timeoutFor config action triggerUnlock =
      .ofSeconds (if triggerUnlock || action.promptsUser then interactive else request) := by
  rw [timeoutFor, hr, hi]
  split <;> rfl

/-- Neither timeout can be zero seconds, and otherwise a configuration takes whatever fits 64 bits, for the
reply to a request and for one that needs the user. A client with these timeouts gives a wait up before it
starts just if the seconds for the action, from the current time on, reach `2 ^ 63`. -/
theorem awaitReply_deadlineOverflow {c : Client σ} {request interactive : Nat}
    (hr : c.config.requestTimeout = .ofSeconds request)
    (hi : c.config.interactiveTimeout = .ofSeconds interactive) :
    ((∃ config : Config, config.Comes ∧ config.requestTimeout = .ofSeconds request ∧
        config.interactiveTimeout = .ofSeconds interactive) ↔
      (0 < request ∧ request < Nat.pow 2 64) ∧ 0 < interactive ∧ interactive < Nat.pow 2 64) ∧
    ∀ action triggerUnlock c',
      awaitReply action (timeoutFor c.config action triggerUnlock) c = .error .deadlineOverflow c' ↔
        c' = c ∧ Nat.pow 2 63 ≤
          c.link.clock / 1000 + if triggerUnlock || action.promptsUser then interactive else request := by
  refine ⟨Config.exists_comes_iff, fun action triggerUnlock c' => ?_⟩
  rw [awaitReply_eq_deadlineOverflow_iff, timeoutFor_eq hr hi, Instant.beyond_le_iff]

/-- A client that would wait for the user as long as can be asked for. -/
def patient : Client Unit :=
  { connected (.fresh 0) with
    config := ⟨"socket", "store", .ofSeconds 5, .ofSeconds (Nat.pow 2 64 - 1), false⟩ }

theorem awaitReply_deadlineOverflow_patient :
    (∃ config : Config, config.Comes ∧ config.requestTimeout = .ofSeconds 5 ∧
      config.interactiveTimeout = .ofSeconds (Nat.pow 2 64 - 1)) ∧
    awaitReply .associate (timeoutFor patient.config .associate false) patient =
      .error .deadlineOverflow patient ∧
    ∀ c', awaitReply .getDatabaseHash (timeoutFor patient.config .getDatabaseHash false) patient ≠
      .error .deadlineOverflow c' := by
  obtain ⟨hcomes, hiff⟩ := @awaitReply_deadlineOverflow _ patient 5 (Nat.pow 2 64 - 1) rfl rfl
  refine ⟨hcomes.2 (by decide), (hiff .associate false _).2 ⟨rfl, by decide⟩, fun c' h => ?_⟩
  exact absurd ((hiff .getDatabaseHash false _).1 h).2 (by decide)

/-- Not every deadline is one that the clock can show: an interactive timeout can reach beyond it already
from the start of the clock. -/
theorem not_forall_deadline_lt :
    ¬ ∀ (config : Config) (clock : Instant) (action : Action) (triggerUnlock : Bool),
      config.Comes → clock < Instant.beyond →
      clock + timeoutFor config action triggerUnlock < Instant.beyond := by
  intro h
  obtain ⟨config, hcomes, hr, hi⟩ : ∃ config : Config, config.Comes ∧
      config.requestTimeout = .ofSeconds 5 ∧
      config.interactiveTimeout = .ofSeconds (Nat.pow 2 64 - 1) :=
    Config.exists_comes_iff.2 (by decide)
  have hlt := h config 0 .associate false hcomes (by decide)
  rw [timeoutFor_eq hr hi] at hlt
  exact absurd hlt (by decide)

end Client

end VaultLink
