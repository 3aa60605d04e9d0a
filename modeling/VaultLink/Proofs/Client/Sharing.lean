import Mathlib.Data.List.Basic
import Mathlib.Data.List.Induction
import Mathlib.Logic.Function.Basic
import VaultLink.Proofs.Client.Stages
import VaultLink.Proofs.Client.Verdicts

/-!
# Clients of one registry

Clients that share a registry take turns, each one step at a time (`World.run`). A record is removed only
by a client that looked a record of its database up and was refused it. The record that it removes is the
one that it was refused, or one that another client filed since (`World.refused_or_overtaken`): nothing
but the database tells which record is removed.
-/

namespace VaultLink

open Client

variable {ι σ : Type}

/-- A registry, the clients that share it, and where each of them stands. What the clients hold as their
registry of their own is of no account. -/
structure World (ι σ : Type) where
  registry : Registry σ
  clients : ι → Client σ
  stages : ι → Stage

/-- Whose turn it is, and the step that is taken. -/
abbrev Turn (ι σ : Type) := ι × Step σ

namespace World

/-- A client as it finds the registry. -/
def client (w : World ι σ) (i : ι) : Client σ := { w.clients i with registry := w.registry }

variable [DecidableEq ι] [AssociationStore σ]

/-- The world after a turn. -/
def turn (w : World ι σ) (t : Turn ι σ) : World ι σ :=
  let (c, stage) := t.2.take (w.client t.1) (w.stages t.1)
  ⟨c.registry, Function.update w.clients t.1 c, Function.update w.stages t.1 stage⟩

theorem turn_eq {w : World ι σ} {t : Turn ι σ} {c : Client σ} {stage : Stage}
    (h : t.2.take (w.client t.1) (w.stages t.1) = (c, stage)) : w.turn t =
      ⟨c.registry, Function.update w.clients t.1 c, Function.update w.stages t.1 stage⟩ := by
  simp only [turn, h]

/-- The world after a row of turns. -/
def run (turns : List (Turn ι σ)) (w : World ι σ) : World ι σ := turns.foldl turn w

variable {w : World ι σ} {i j : ι} {step : Step σ} {hash id : String} {record : Association}

theorem run_append (turns more : List (Turn ι σ)) (w : World ι σ) :
    run (turns ++ more) w = run more (run turns w) := List.foldl_append

theorem run_snoc (turns : List (Turn ι σ)) (t : Turn ι σ) (w : World ι σ) :
    run (turns ++ [t]) w = (run turns w).turn t := run_append turns [t] w

@[simp] theorem registry_turn (w : World ι σ) (t : Turn ι σ) :
    (w.turn t).registry = (t.2.take (w.client t.1) (w.stages t.1)).1.registry := rfl

@[simp] theorem client_turn_self (w : World ι σ) (i : ι) (step : Step σ) :
    (w.turn (i, step)).client i = (step.take (w.client i) (w.stages i)).1 := by
  simp only [client, turn, Function.update_self]

@[simp] theorem stages_turn_self (w : World ι σ) (i : ι) (step : Step σ) :
    (w.turn (i, step)).stages i = (step.take (w.client i) (w.stages i)).2 :=
  Function.update_self _ _ _

/-- To a client another one's turn is at most a change of the registry. -/
theorem client_turn_of_ne (w : World ι σ) (step : Step σ) (h : j ≠ i) :
    (w.turn (i, step)).client j =
      { w.client j with registry := (w.turn (i, step)).registry } := by
  simp only [client, turn, Function.update_of_ne h]

theorem stages_turn_of_ne (w : World ι σ) (step : Step σ) (h : j ≠ i) :
    (w.turn (i, step)).stages j = w.stages j := Function.update_of_ne h _ _

/-- A client whose steps nobody comes between takes them as if it were alone. -/
theorem run_alone (steps : List (Step σ)) (w : World ι σ) (i : ι) :
    ((run (steps.map (i, ·)) w).client i, (run (steps.map (i, ·)) w).stages i) =
      takeAll steps (w.client i) (w.stages i) := by
  induction steps generalizing w with
  | nil => rfl
  | cons step steps ih =>
    rw [List.map_cons, run, List.foldl_cons]
    exact (ih _).trans (by rw [client_turn_self, stages_turn_self]; rfl)

/-! ## Records that come and go -/

/-- A turn changes what is shown for a database only by filing a record that was approved, or by removing
the record of a client's database after a check that did not find a record of it valid. -/
theorem lookup_turn (w : World ι σ) (t : Turn ι σ) (id : String) :
    (w.turn t).registry.lookup id = w.registry.lookup id ∨
      (t.2 = .adopt ∧ ∃ record, w.stages t.1 = .approved record ∧
        (w.turn t).registry.lookup id = some record) ∨
      t.2 = .resolve ∧ (w.client t.1).databaseHash = some id ∧
        (∃ record outcome, w.stages t.1 = .judged id record outcome ∧ outcome ≠ .valid) ∧
        (w.turn t).registry.lookup id = none := by
  rcases registry_take t.2 (w.client t.1) (w.stages t.1) with
    hsame | ⟨hash, record, outcome, hstep, hstage, hinvalid, hhash, hevict⟩ |
      ⟨record, hstep, hstage, hinsert⟩
  · rw [registry_turn, hsame]
    exact .inl rfl
  · rw [registry_turn, hevict]
    rcases (w.client t.1).registry.lookup_evict hash id with hl | ⟨rfl, hl⟩
    · exact .inl hl
    · exact .inr (.inr ⟨hstep, hhash, ⟨record, outcome, hstage, hinvalid⟩, hl⟩)
  · rw [registry_turn, hinsert]
    exact (Registry.lookup_insert record _ id).imp_right
      fun hl => .inl ⟨hstep, record, hstage, hl⟩

/-- In a row of turns a client files a record. -/
def Files (turns : List (Turn ι σ)) (w : World ι σ) (i : ι) (record : Association) : Prop :=
  ∃ earlier later, turns = earlier ++ (i, .adopt) :: later ∧
    (run earlier w).stages i = .approved record

/-- What is shown after a row of turns was shown before, or a client filed it. -/
theorem lookup_run (turns : List (Turn ι σ))
    (h : (run turns w).registry.lookup id = some record) :
    w.registry.lookup id = some record ∨ ∃ i, Files turns w i record := by
  induction turns using List.reverseRecOn with
  | nil => exact .inl h
  | append_singleton turns t ih =>
    rw [run_snoc] at h
    rcases lookup_turn (run turns w) t id with hsame | ⟨hadopt, filed, hstage, hl⟩ | ⟨-, -, -, hl⟩
    · refine (ih (hsame.symm.trans h)).imp_right ?_
      rintro ⟨i, earlier, later, rfl, hfiles⟩
      exact ⟨i, earlier, later ++ [t], by simp, hfiles⟩
    · cases hl.symm.trans h
      exact .inr ⟨t.1, turns, [], by rw [← hadopt], hstage⟩
    · cases hl.symm.trans h

/-! ## Records that a client is not done with -/

/-- All through a row of turns a client is not done with a record. -/
def Pursues (turns : List (Turn ι σ)) (w : World ι σ) (i : ι) (hash : String)
    (record : Association) : Prop :=
  ∀ begun, begun <+: turns → ((run begun w).stages i).subject? = some (hash, record)

/-- What a turn does to the record that a client is not done with. -/
theorem subject_turn {t : Turn ι σ} (h : ((w.turn t).stages i).subject? = some (hash, record)) :
    (w.turn t).stages i = w.stages i ∧
        ((w.turn t).client i).databaseHash = (w.client i).databaseHash ∨
      t = (i, .lookUp) ∧ (w.turn t).stages i = .found hash record ∧
        w.registry.lookup hash = some record ∨
      t = (i, .check) ∧ w.stages i = .found hash record ∧ ∃ outcome,
        (w.turn t).stages i = .judged hash record outcome ∧
        testAssociate record (w.client i) = .ok outcome ((w.turn t).client i) := by
  obtain ⟨j, step⟩ := t
  by_cases hj : i = j
  · subst hj
    rw [stages_turn_self] at h ⊢
    rw [client_turn_self]
    rcases stage_take h with hsame | ⟨rfl, hl⟩ | ⟨rfl, hc⟩
    · exact .inl hsame
    · exact .inr (.inl ⟨rfl, hl⟩)
    · exact .inr (.inr ⟨rfl, hc⟩)
  · rw [stages_turn_of_ne w step hj, client_turn_of_ne w step hj]
    exact .inl ⟨rfl, rfl⟩

/-- In a row of turns a client finds a record by looking it up, and is not done with it from then on. -/
def Consults (turns : List (Turn ι σ)) (w : World ι σ) (i : ι) (hash : String)
    (record : Association) : Prop :=
  ∃ earlier later, turns = earlier ++ (i, .lookUp) :: later ∧
    (run earlier w).registry.lookup hash = some record ∧
    (run (earlier ++ [(i, .lookUp)]) w).stages i = .found hash record ∧
    Pursues later (run (earlier ++ [(i, .lookUp)]) w) i hash record

theorem Consults.snoc {turns : List (Turn ι σ)} {t : Turn ι σ} (h : Consults turns w i hash record)
    (hs : ((run (turns ++ [t]) w).stages i).subject? = some (hash, record)) :
    Consults (turns ++ [t]) w i hash record := by
  obtain ⟨earlier, later, rfl, hl, hfound, hp⟩ := h
  refine ⟨earlier, later ++ [t], by simp, hl, hfound, fun begun hbegun => ?_⟩
  rcases List.prefix_concat_iff.1 hbegun with rfl | hbegun
  · rw [← run_append]
    simpa using hs
  · exact hp begun hbegun

theorem consults_of_subject (hidle : w.stages i = .idle) (turns : List (Turn ι σ))
    (h : ((run turns w).stages i).subject? = some (hash, record)) :
    Consults turns w i hash record := by
  induction turns using List.reverseRecOn with
  | nil =>
    rw [run, List.foldl_nil, hidle] at h
    cases h
  | append_singleton turns t ih =>
    have hturn := h
    rw [run_snoc] at hturn
    rcases subject_turn hturn with ⟨hsame, -⟩ | ⟨rfl, hfound, hl⟩ | ⟨-, hfound, -⟩
    · exact (ih (hsame ▸ hturn)).snoc h
    · rw [← run_snoc] at hfound
      refine ⟨turns, [], rfl, hl, hfound, fun begun hbegun => ?_⟩
      rw [List.prefix_nil.1 hbegun, run, List.foldl_nil, hfound]
      rfl
    · exact (ih (by rw [hfound]; rfl)).snoc h

/-- A client that has the outcome of a check of a record that it did not have before checked it, and took
its database for the current one as it still does. -/
theorem exists_check {outcome : TestOutcome} (hfound : w.stages i = .found hash record)
    (turns : List (Turn ι σ)) (h : (run turns w).stages i = .judged hash record outcome) :
    ∃ earlier later d, turns = earlier ++ (i, .check) :: later ∧
      (run earlier w).stages i = .found hash record ∧
      testAssociate record ((run earlier w).client i) = .ok outcome d ∧
      ((run turns w).client i).databaseHash = d.databaseHash := by
  induction turns using List.reverseRecOn with
  | nil => cases hfound.symm.trans h
  | append_singleton turns t ih =>
    rw [run_snoc] at h ⊢
    have hsubject : (((run turns w).turn t).stages i).subject? = some (hash, record) := by
      rw [h]
      rfl
    rcases subject_turn hsubject with ⟨hsame, hhash⟩ | ⟨-, hother, -⟩ | ⟨rfl, hbefore, _, hj, ht⟩
    · obtain ⟨earlier, later, d, rfl, hbefore, ht, hd⟩ := ih (hsame ▸ h)
      exact ⟨earlier, later ++ [t], d, by simp, hbefore, ht, hhash.trans hd⟩
    · cases h.symm.trans hother
    · cases h.symm.trans hj
      exact ⟨turns, [], _, rfl, hbefore, ht, rfl⟩

/-! ## Removals -/

/-- A record is removed only by a client that looked a record of its database up and was refused it. The
record removed is that one, or one that another client has filed since. -/
theorem refused_or_overtaken {removed : Association} (hidle : ∀ i, w.stages i = .idle)
    (turns : List (Turn ι σ)) (t : Turn ι σ)
    (h : (run turns w).registry.lookup id = some removed)
    (hnone : (run (turns ++ [t]) w).registry.lookup id = none) :
    t.2 = .resolve ∧ ∃ earlier between later record,
      turns = earlier ++ (t.1, .lookUp) :: (between ++ (t.1, .check) :: later) ∧
      (run earlier w).registry.lookup id = some record ∧
      (run (earlier ++ (t.1, .lookUp) :: between) w).stages t.1 = .found id record ∧
      verdict? record ((run (earlier ++ (t.1, .lookUp) :: between) w).client t.1) = some .refused ∧
      (removed = record ∨ ∃ j, j ≠ t.1 ∧ Files (between ++ (t.1, .check) :: later)
        (run (earlier ++ [(t.1, .lookUp)]) w) j removed) := by
  obtain ⟨i, step⟩ := t
  rw [run_snoc] at hnone
  rcases lookup_turn (run turns w) (i, step) id with
    hsame | ⟨-, filed, -, hl⟩ | ⟨hstep, hhash, ⟨record, outcome, hstage, hinvalid⟩, -⟩
  · cases h.symm.trans (hsame.symm.trans hnone)
  · cases hl.symm.trans hnone
  refine ⟨hstep, ?_⟩
  have hsubject : ((run turns w).stages i).subject? = some (id, record) := by
    rw [hstage]
    rfl
  obtain ⟨earlier, rest, rfl, hl, hfound, hpursues⟩ :=
    consults_of_subject (hidle i) turns hsubject
  have hsplit (more : List (Turn ι σ)) : run (earlier ++ (i, .lookUp) :: more) w =
      run more (run (earlier ++ [(i, .lookUp)]) w) := by
    rw [← run_append, List.append_assoc, List.singleton_append]
  rw [hsplit] at h hstage hhash
  obtain ⟨between, later, d, rfl, hbefore, ht, hd⟩ := exists_check hfound rest hstage
  refine ⟨earlier, between, later, record, rfl, hl, hsplit between ▸ hbefore, ?_, ?_⟩
  · rw [hsplit between]
    refine verdict?_eq_refused ht hinvalid ?_
    rw [← hd, Registry.databaseId_of_lookup hl]
    exact hhash
  -- since it was looked up the record stayed, or it was replaced
  · rcases lookup_run _ h with hkept | ⟨j, hfiles⟩
    · rw [run_snoc] at hkept
      rcases lookup_turn (run earlier w) (i, .lookUp) id with hsame | ⟨⟨⟩, -⟩ | ⟨⟨⟩, -⟩
      exact .inl (Option.some.inj (hkept.symm.trans (hsame.trans hl)))
    · refine .inr ⟨j, ?_, hfiles⟩
      -- a client that is not done with a record has none to file
      rintro rfl
      obtain ⟨a, b, hab, happroved⟩ := hfiles
      have hsubject := hpursues a (hab ▸ List.prefix_append _ _)
      rw [happroved] at hsubject
      cases hsubject

/-! ## A record that was not refused -/

section Overtaken

variable {registry : Registry σ} {first second : Client σ × Stage} {c : Client σ} {stage : Stage}

/-- The world of two clients. -/
def pair (registry : Registry σ) (first second : Client σ × Stage) : World Bool σ :=
  ⟨registry, fun i => if i then second.1 else first.1, fun i => if i then second.2 else first.2⟩

theorem turn_pair_first (h : step.take { first.1 with registry } first.2 = (c, stage)) :
    (pair registry first second).turn (false, step) = pair c.registry (c, stage) second := by
  refine (turn_eq h).trans (World.mk.injEq .. ▸ ⟨rfl, ?_, ?_⟩) <;> funext i <;> cases i <;> rfl

theorem turn_pair_second (h : step.take { second.1 with registry } second.2 = (c, stage)) :
    (pair registry first second).turn (true, step) = pair c.registry first (c, stage) := by
  refine (turn_eq h).trans (World.mk.injEq .. ▸ ⟨rfl, ?_, ?_⟩) <;> funext i <;> cases i <;> rfl

/-- One client looks a record up, and the other one associates. -/
def overtaking : List (Turn Bool σ) :=
  [(false, .locate), (false, .lookUp), (true, .seek), (true, .adopt)]

theorem run_overtaking {a b d told : Client σ} {old filed : Association} (ha : Checks a hash old a)
    (hregistry : b.registry = a.registry) (hseek : seekApproval b = .ok filed d)
    (hadopt : adopt filed d = .ok filed told) :
    run overtaking (pair a.registry (a, .idle) (b, .idle)) =
      pair told.registry (a, .found hash old) (told, .idle) := by
  have hlocated : (pair a.registry (a, .idle) (b, .idle)).turn (false, .locate) =
      pair a.registry (a, .located hash) (b, .idle) :=
    turn_pair_first (c := a) (take_locate ha.locate_eq)
  have hfound : (pair a.registry (a, .located hash) (b, .idle)).turn (false, .lookUp) =
      pair a.registry (a, .found hash old) (b, .idle) :=
    turn_pair_first (c := a) (take_lookUp ha)
  have hsought : (pair a.registry (a, .found hash old) (b, .idle)).turn (true, .seek) =
      pair d.registry (a, .found hash old) (d, .approved filed) := by
    rw [← hregistry]
    exact turn_pair_second (c := d) (take_seek hseek)
  have hadopted : (pair d.registry (a, .found hash old) (d, .approved filed)).turn (true, .adopt) =
      pair told.registry (a, .found hash old) (told, .idle) :=
    turn_pair_second (c := told) (take_adopt hadopt)
  simp only [overtaking, run, List.foldl_cons, List.foldl_nil, hlocated, hfound, hsought, hadopted]

/-- A client that finds its record not valid removes what is filed for the database by then. -/
theorem registry_turn_check_resolve {a d : Client σ} {old : Association} {outcome : TestOutcome}
    (htest : testAssociate old { a with registry } = .ok outcome d) (hinvalid : outcome ≠ .valid)
    (hhash : d.databaseHash = some hash) :
    ((pair registry (a, .found hash old) second).turn (false, .check)).registry = registry ∧
      (((pair registry (a, .found hash old) second).turn (false, .check)).turn
        (false, .resolve)).registry = (registry.evict hash).2 := by
  have hd : d.registry = registry := by
    have hkeep := registry_after_testAssociate old { a with registry }
    rwa [after_of_ok htest] at hkeep
  have hchecked : (pair registry (a, .found hash old) second).turn (false, .check) =
      pair d.registry (d, .judged hash old outcome) second :=
    turn_pair_first (c := d) (take_check htest)
  rw [hchecked]
  refine ⟨hd, (congrArg Client.registry (proceed_fst (fun _ => .idle) _ d)).trans ?_⟩
  rw [registry_after_resolve, if_pos ⟨hinvalid, hhash⟩, hd]

/-- Two clients can come to this: the first one removes another record than the one that it looked up and
checked, because the second one has filed it in between. -/
theorem exists_overtaken :
    ∃ (moves : Bool → List (Move MemoryStore)) (registry : Registry MemoryStore)
      (w : World Bool MemoryStore) (old filed : Association),
      w = ⟨registry, fun i => Client.run (moves i) (new 0 usual registry (.ofBytes [])),
        fun _ => .idle⟩ ∧
      (run overtaking w).stages false = .found "database" old ∧
      old.connectionKey ≠ filed.connectionKey ∧
      (run (overtaking ++ [(false, .check)]) w).registry.lookup "database" = some filed ∧
      (run (overtaking ++ [(false, .check)] ++ [(false, .resolve)]) w).registry.lookup "database" =
        none := by
  let old : Association := ⟨"database", "old", .ofSecret (.ofNatLE 32 1)⟩
  obtain ⟨moves, _, a, hrun, hidle, hregistry, hhash, hchecks⟩ := exists_checks old
  obtain ⟨greeting, _, b, hrun', hidle', hregistry', -, -⟩ :=
    exists_introduced (Registry.alone old)
  obtain ⟨grant, d, hseek, -, hd⟩ := exists_seekApproval_prompt hidle' (by decide)
  let filed : Association := ⟨"database", "name", b.freshKey⟩
  let registry : Registry MemoryStore :=
    { Registry.alone filed with store := ⟨[filed.toStored], 1, none⟩ }
  have hinsert : d.registry.insert filed = (.ok (), registry) := by
    rw [hd, hregistry']
    exact Registry.insert_of_ok rfl
  obtain ⟨refusal, e, htest, -, ⟨_, _, _, rfl⟩, -⟩ := exists_testAssociate_prompt
    (c := { a with registry }) (hidle.congr rfl rfl rfl rfl) (by decide) old
  let first : Client MemoryStore := (prompt [] refusal).apply a
  let second : Client MemoryStore := (prompt [] grant).apply b
  have hovertaken := run_overtaking (hchecks [] refusal) (b := second)
    (hregistry'.trans hregistry.symm) hseek (adopt_of_ok hinsert)
  obtain ⟨hchecked, hresolved⟩ := registry_turn_check_resolve (a := first) htest (by decide) hhash
  have hfirst : Client.run (moves ++ [prompt [] refusal]) (new 0 usual (.alone old) (.ofBytes [])) =
      first := by
    rw [Client.run_append, hrun]
    rfl
  have hsecond : Client.run ([prompt [] greeting, .call .shakeHands] ++ [prompt [] grant])
      (new 0 usual (.alone old) (.ofBytes [])) = second := by
    rw [Client.run_append, hrun']
    rfl
  refine ⟨fun i => if i then [prompt [] greeting, .call .shakeHands] ++ [prompt [] grant]
    else moves ++ [prompt [] refusal], .alone old,
    pair first.registry (first, .idle) (second, .idle), old, filed, ?_, ?_, ?_, ?_, ?_⟩
  · refine World.mk.injEq .. ▸ ⟨hregistry, ?_, ?_⟩ <;> funext i <;> cases i
    exacts [hfirst.symm, hsecond.symm, rfl, rfl]
  · rw [hovertaken]
    rfl
  · simp [Association.connectionKey, old, filed]
  · rw [run_snoc, hovertaken, hchecked]
    rfl
  · have hlookup : registry.lookup "database" = some filed := rfl
    have hevict := Registry.evict_of_ok hlookup rfl
    rw [run_snoc, run_snoc, hovertaken, hresolved, hevict]
    rfl

end Overtaken

/-- Two clients can come to such a removal. -/
theorem refused_or_overtaken_filed :
    ∃ (w : World Bool MemoryStore) (turns : List (Turn Bool MemoryStore)) (removed : Association),
      (∀ i, w.stages i = .idle) ∧ (run turns w).registry.lookup "database" = some removed ∧
        (run (turns ++ [(false, .resolve)]) w).registry.lookup "database" = none ∧
        ∃ earlier between later record,
          turns = earlier ++ (false, .lookUp) :: (between ++ (false, .check) :: later) ∧
          verdict? record ((run (earlier ++ (false, .lookUp) :: between) w).client false) =
            some .refused ∧
          (removed = record ∨ ∃ j, j ≠ false ∧ Files (between ++ (false, .check) :: later)
            (run (earlier ++ [(false, .lookUp)]) w) j removed) := by
  obtain ⟨moves, registry, w, old, filed, rfl, -, -, hfiled, hnone⟩ := exists_overtaken
  obtain ⟨-, earlier, between, later, record, hturns, -, -, hrefused, hremoved⟩ :=
    refused_or_overtaken (fun _ => rfl) _ _ hfiled hnone
  exact ⟨_, _, filed, fun _ => rfl, hfiled, hnone, earlier, between, later, record, hturns, hrefused,
    hremoved⟩

/-- A record that is removed is not always one that was refused to the client that removes it. -/
theorem not_forall_removed_refused :
    ¬ ∀ (moves : Bool → List (Move MemoryStore)) (clock : Instant) (config : Config)
      (registry : Registry MemoryStore) (entropy : Entropy) (w : World Bool MemoryStore)
      (turns : List (Turn Bool MemoryStore)) (t : Turn Bool MemoryStore) (id : String)
      (removed : Association),
      w = ⟨registry, fun i => Client.run (moves i) (new clock config registry entropy),
        fun _ => .idle⟩ →
      (run turns w).registry.lookup id = some removed →
      (run (turns ++ [t]) w).registry.lookup id = none →
      ∃ earlier later record, turns = earlier ++ (t.1, .check) :: later ∧
        (run earlier w).stages t.1 = .found id record ∧
        verdict? record ((run earlier w).client t.1) = some .refused ∧
        record.connectionKey = removed.connectionKey := by
  intro h
  obtain ⟨moves, registry, w, old, filed, hw, hfound, hne, hfiled, hnone⟩ := exists_overtaken
  obtain ⟨earlier, later, record, hturns, hstage, -, hkey⟩ :=
    h moves 0 usual registry (.ofBytes []) w _ _ _ filed hw hfiled hnone
  have hmem : (false, Step.check) ∉ (overtaking : List (Turn Bool MemoryStore)) := by
    simp [overtaking]
  have hearlier := ((List.append_cons_inj_of_notMem hmem List.not_mem_nil).1 hturns).1
  rw [← hearlier, hfound] at hstage
  cases hstage
  exact hne hkey

end World

end VaultLink
