import VaultLink.Proofs.Client.Standing

/-!
# The stages of an operation

Making sure of the association and associating are cut where other clients of the same registry may come
between, since only one look at the registry, or one change of it, is undivided
(`ensureAssociated_eq_stages`, `associate_eq_stages`). A client takes the stages one step at a time
(`Step.take`), and a step changes the registry in two ways only (`registry_take`). Steps that nobody comes
between make the operation (`takeAll_ensureAssociated`, `takeAll_associate`).
-/

namespace VaultLink.Client

variable {σ : Type}

/-! ## Making sure of the association -/

/-- Learns the current database. -/
def locate : Run σ String := do
  ensureEstablished
  currentDatabase

/-- Looks the record of a database up, and whether it is validated already. -/
def consult (hash : String) : Run σ (Association × Bool) := do
  let c ← get
  match c.registry.lookup hash with
  | none =>
    modify fun c => { c with association := .notAssociated }
    throw (.notAssociated (.noRecord hash))
  | some record => return (record, decide (c.association = .validated))

/-- Takes the outcome of a check: a record that is not valid is removed if its database is still the
current one. -/
def resolve [AssociationStore σ] (hash : String) (record : Association) (outcome : TestOutcome) :
    Run σ Association :=
  match outcome with
  | .valid => do
    modify fun c => { c with association := .validated }
    return record
  | _ => do
    if (← get).databaseHash ≠ some hash then
      throw (.notAssociated (.databaseChanged record.name))
    let _ ← onRegistry (Registry.evict hash)
    modify fun c => { c with association := .notAssociated }
    throw (.notAssociated (.notAccepted record.name))

/-- What looking a record up comes to. -/
theorem consult_eq (hash : String) (c : Client σ) :
    consult hash c =
      match c.registry.lookup hash with
      | none => .error (.notAssociated (.noRecord hash)) { c with association := .notAssociated }
      | some record => .ok (record, decide (c.association = .validated)) c := by
  simp only [consult, bind_apply, get_apply]
  rcases c.registry.lookup hash with _ | record <;> rfl

theorem Checks.locate_eq {hash : String} {record : Association} {b c : Client σ}
    (h : Checks c hash record b) : locate c = .ok hash b := by
  obtain ⟨peer, hp⟩ := h.exists_peer
  simp only [locate, bind_apply, ensureEstablished, get_apply, hp, ofExcept_ok, pure_apply,
    h.currentDatabase_eq]

theorem Checks.consult_eq {hash : String} {record : Association} {b c : Client σ}
    (h : Checks c hash record b) : consult hash b = .ok (record, false) b := by
  rw [Client.consult_eq, h.lookup_eq, decide_eq_false h.unvalidated]

/-- What the outcome of a check comes to. -/
theorem resolve_eq [AssociationStore σ] (hash : String) (record : Association)
    (outcome : TestOutcome) (c : Client σ) :
    resolve hash record outcome c =
      if outcome = .valid then .ok record { c with association := .validated }
      else if c.databaseHash = some hash then
        match c.registry.evict hash with
        | (.error e, registry) => .error e { c with registry }
        | (.ok _, registry) => .error (.notAssociated (.notAccepted record.name))
            { c with registry, association := .notAssociated }
      else .error (.notAssociated (.databaseChanged record.name)) c := by
  cases outcome with
  | valid => rfl
  | invalid | notFound =>
    simp only [resolve, bind_apply, get_apply, reduceCtorEq, if_false]
    by_cases hh : c.databaseHash = some hash
    · simp only [hh, ne_eq, not_true_eq_false, if_false, if_true, bind_apply, onRegistry_eq]
      rcases c.registry.evict hash with ⟨_ | _, registry⟩ <;> rfl
    · simp only [hh, ne_eq, not_false_eq_true, if_true, if_false, bind_apply, throw_apply]

/-- Making sure of the association is these stages. -/
theorem ensureAssociated_eq_stages [AssociationStore σ] :
    (ensureAssociated : Run σ Association) = (do
      let hash ← locate
      let (record, validated) ← consult hash
      if validated then return record
      let outcome ← testAssociate record
      resolve hash record outcome) := by
  funext c
  rw [ensureAssociated_eq]
  simp only [locate, bind_apply, ensureEstablished, get_apply]
  rcases c.session.requirePeer with e | peer
  · rfl
  simp only [ofExcept_ok, pure_apply]
  rcases currentDatabase c with ⟨hash, d⟩ | ⟨e, d⟩
  · simp only [consult_eq]
    rcases d.registry.lookup hash with _ | record
    · rfl
    · by_cases hv : d.association = .validated
      · simp only [hv, if_true, decide_true, pure_apply]
      · simp only [hv, if_false, decide_false, Bool.false_eq_true, bind_apply, resolve_eq]
        rcases testAssociate record d with ⟨outcome, d⟩ | ⟨e, d⟩ <;> rfl
  · rfl

/-! ## What stages do to the registry -/

section Registry

variable {α : Type} {c : Client σ} {hash : String} {record : Association}

theorem registry_after_locate (c : Client σ) : (after locate c).registry = c.registry :=
  related_bind (R := fun c d => d.registry = c.registry) (fun h h' => h'.trans h)
    (by
      simp only [after, ensureEstablished, bind_apply, get_apply]
      rcases c.session.requirePeer with e | peer <;> rfl)
    fun _ d _ => registry_after_currentDatabase d

theorem registry_after_consult (hash : String) (c : Client σ) :
    (after (consult hash) c).registry = c.registry := by
  rw [after, consult_eq]
  rcases c.registry.lookup hash with _ | record <;> rfl

theorem registry_after_seekApproval (c : Client σ) :
    (after seekApproval c).registry = c.registry := by
  have hround := registry_after_roundTrip .associate (associateFields c) false c.afterFreshKey
  rw [after, seekApproval_eq]
  rcases c.session.requirePeer with e | peer
  · rfl
  simp only
  rcases hr : roundTrip .associate (associateFields c) false c.afterFreshKey with
    ⟨body, d⟩ | ⟨e, d⟩
  · rw [after_of_ok hr] at hround
    simp only
    rcases requireText body "hash" with e | databaseId <;> rcases requireText body "id" with e | name <;>
      exact hround
  · rw [after_of_error hr] at hround
    exact hround

variable [AssociationStore σ]

theorem registry_after_resolve (hash : String) (record : Association) (outcome : TestOutcome)
    (c : Client σ) :
    (after (resolve hash record outcome) c).registry =
      if outcome ≠ .valid ∧ c.databaseHash = some hash then (c.registry.evict hash).2
      else c.registry := by
  rw [after, resolve_eq]
  by_cases ho : outcome = .valid
  · simp only [ho, if_true, ne_eq, not_true_eq_false, false_and, if_false]
  · by_cases hh : c.databaseHash = some hash
    · simp only [ho, if_false, hh, if_true, ne_eq, not_false_eq_true, and_self]
      rcases c.registry.evict hash with ⟨_ | _, registry⟩ <;> rfl
    · simp only [ho, if_false, hh, and_false]

theorem registry_after_adopt (record : Association) (c : Client σ) :
    (after (adopt record) c).registry = (c.registry.insert record).2 := by
  simp only [after, adopt, bind_apply, onRegistry_eq]
  rcases c.registry.insert record with ⟨_ | _, registry⟩ <;> rfl

end Registry

/-! ## Steps -/

/-- Where a client stands in an operation. -/
inductive Stage where
  | idle
  /-- It knows the current database. -/
  | located (hash : String)
  /-- It looked the record of the database up and is to check it. -/
  | found (hash : String) (record : Association)
  /-- It checked the record. -/
  | judged (hash : String) (record : Association) (outcome : TestOutcome)
  /-- It is to file a record that was approved. -/
  | approved (record : Association)

/-- What a client does next. -/
inductive Step (σ : Type) where
  /-- Between operations, anything but using the registry. -/
  | act (change : Client σ → Client σ)
  /-- The other end of the link acts. -/
  | proxy (change : Link → Link)
  | locate
  | lookUp
  | check
  | resolve
  | seek
  | adopt

/-- Goes on to the next stage, unless the operation failed. -/
def proceed {α : Type} (next : α → Stage) : EStateM.Result Error (Client σ) α → Client σ × Stage
  | .ok a c => (c, next a)
  | .error _ c => (c, .idle)

theorem proceed_fst {α : Type} (next : α → Stage) (m : Run σ α) (c : Client σ) :
    (proceed next (m c)).1 = after m c := by
  rcases h : m c with ⟨a, d⟩ | ⟨e, d⟩
  · rw [after_of_ok h]
    rfl
  · rw [after_of_error h]
    rfl

variable [AssociationStore σ]

/-- The client and where it stands after a step. A step that is not its next one changes nothing. -/
def Step.take : Step σ → Client σ → Stage → Client σ × Stage
  | act change, c, .idle => ({ change c with registry := c.registry }, .idle)
  | proxy change, c, stage => ({ c with link := change c.link }, stage)
  | locate, c, .idle => proceed .located (Client.locate c)
  | lookUp, c, .located hash =>
    proceed (fun (record, validated) => if validated then .idle else .found hash record)
      (consult hash c)
  | check, c, .found hash record => proceed (.judged hash record) (testAssociate record c)
  | resolve, c, .judged hash record outcome =>
    proceed (fun _ => .idle) (Client.resolve hash record outcome c)
  | seek, c, .idle => proceed .approved (seekApproval c)
  | adopt, c, .approved record => proceed (fun _ => .idle) (Client.adopt record c)
  | _, c, stage => (c, stage)

theorem take_locate {c d : Client σ} {hash : String} (h : Client.locate c = .ok hash d) :
    Step.locate.take c .idle = (d, .located hash) :=
  congrArg (proceed .located) h

theorem take_lookUp {b c : Client σ} {hash : String} {record : Association}
    (h : Checks b hash record c) : Step.lookUp.take c (.located hash) = (c, .found hash record) := by
  rw [Step.take, h.consult_eq]
  rfl

theorem take_check {c d : Client σ} {hash : String} {record : Association} {outcome : TestOutcome}
    (h : testAssociate record c = .ok outcome d) :
    Step.check.take c (.found hash record) = (d, .judged hash record outcome) :=
  congrArg (proceed (.judged hash record)) h

theorem take_seek {c d : Client σ} {record : Association} (h : seekApproval c = .ok record d) :
    Step.seek.take c .idle = (d, .approved record) :=
  congrArg (proceed .approved) h

theorem take_adopt {c d : Client σ} {record : Association} (h : Client.adopt record c = .ok record d) :
    Step.adopt.take c (.approved record) = (d, .idle) :=
  congrArg (proceed fun _ => .idle) h

/-- A step changes the registry only by removing a record that was checked and not found valid, if its
database is the current one, or by filing one that was approved. -/
theorem registry_take (step : Step σ) (c : Client σ) (stage : Stage) :
    (step.take c stage).1.registry = c.registry ∨
      (∃ hash record outcome, step = .resolve ∧ stage = .judged hash record outcome ∧
        outcome ≠ .valid ∧ c.databaseHash = some hash ∧
        (step.take c stage).1.registry = (c.registry.evict hash).2) ∨
      ∃ record, step = .adopt ∧ stage = .approved record ∧
        (step.take c stage).1.registry = (c.registry.insert record).2 := by
  unfold Step.take
  split
  case h_1 | h_2 => exact .inl rfl
  case h_3 => exact .inl ((congrArg _ (proceed_fst _ _ _)).trans (registry_after_locate c))
  case h_4 => exact .inl ((congrArg _ (proceed_fst _ _ _)).trans (registry_after_consult _ c))
  case h_5 => exact .inl ((congrArg _ (proceed_fst _ _ _)).trans (registry_after_testAssociate _ c))
  case h_7 => exact .inl ((congrArg _ (proceed_fst _ _ _)).trans (registry_after_seekApproval c))
  case h_6 hash record outcome =>
    have hr := (congrArg Client.registry (proceed_fst (fun _ => Stage.idle) _ c)).trans
      (registry_after_resolve hash record outcome c)
    split at hr
    · rename_i h
      exact .inr (.inl ⟨hash, record, outcome, rfl, rfl, h.1, h.2, hr⟩)
    · exact .inl hr
  case h_8 record =>
    exact .inr (.inr ⟨record, rfl, rfl,
      (congrArg _ (proceed_fst _ _ _)).trans (registry_after_adopt record c)⟩)
  case h_9 => exact .inl rfl

/-- The database and the record that a client looked up and is not done with. -/
def Stage.subject? : Stage → Option (String × Association)
  | found hash record | judged hash record _ => some (hash, record)
  | _ => none

/-- After a step a client is not done with a record that it was not done with before, or that it just
looked up, or that it just checked. -/
theorem stage_take {step : Step σ} {c : Client σ} {stage : Stage} {hash : String}
    {record : Association} (h : (step.take c stage).2.subject? = some (hash, record)) :
    (step.take c stage).2 = stage ∧ (step.take c stage).1.databaseHash = c.databaseHash ∨
      step = .lookUp ∧ (step.take c stage).2 = .found hash record ∧
        c.registry.lookup hash = some record ∨
      step = .check ∧ stage = .found hash record ∧ ∃ outcome,
        (step.take c stage).2 = .judged hash record outcome ∧
        testAssociate record c = .ok outcome (step.take c stage).1 := by
  unfold Step.take at h ⊢
  split at h
  case h_1 => cases h
  case h_2 | h_9 => exact .inl ⟨rfl, rfl⟩
  case h_3 =>
    rcases hl : Client.locate c with ⟨hash, d⟩ | ⟨e, d⟩ <;> rw [hl] at h <;> cases h
  case h_4 found =>
    rw [consult_eq] at h ⊢
    rcases hl : c.registry.lookup found with _ | other <;> rw [hl] at h
    · cases h
    · by_cases hv : c.association = .validated
      · rw [decide_eq_true hv] at h
        cases h
      · rw [decide_eq_false hv] at h ⊢
        cases h
        exact .inr (.inl ⟨rfl, rfl, hl⟩)
  case h_5 found other =>
    rcases ht : testAssociate other c with ⟨outcome, d⟩ | ⟨e, d⟩ <;> rw [ht] at h <;> cases h
    exact .inr (.inr ⟨rfl, rfl, outcome, rfl, ht⟩)
  case h_6 found other outcome =>
    rcases hr : Client.resolve found other outcome c with ⟨kept, d⟩ | ⟨e, d⟩ <;> rw [hr] at h <;>
      cases h
  case h_7 =>
    rcases hs : seekApproval c with ⟨other, d⟩ | ⟨e, d⟩ <;> rw [hs] at h <;> cases h
  case h_8 other =>
    rcases ha : Client.adopt other c with ⟨kept, d⟩ | ⟨e, d⟩ <;> rw [ha] at h <;> cases h

/-! ## Steps that nobody comes between -/

/-- The client and where it stands after one step and another. -/
def takeAll (steps : List (Step σ)) (c : Client σ) (stage : Stage) : Client σ × Stage :=
  steps.foldl (fun p step => step.take p.1 p.2) (c, stage)

theorem takeAll_ensureAssociated (c : Client σ) :
    takeAll [.locate, .lookUp, .check, .resolve] c .idle = (after ensureAssociated c, .idle) := by
  rw [ensureAssociated_eq_stages]
  simp only [takeAll, List.foldl_cons, List.foldl_nil, Step.take, after, bind_apply]
  rcases Client.locate c with ⟨hash, d⟩ | ⟨e, d⟩
  · simp only [proceed]
    rcases hl : consult hash d with ⟨⟨record, _ | _⟩, d⟩ | ⟨e, d⟩
    · simp only [Bool.false_eq_true, if_false, bind_apply]
      rcases testAssociate record d with ⟨outcome, d⟩ | ⟨e, d⟩
      · simp only
        rcases Client.resolve hash record outcome d with ⟨kept, d⟩ | ⟨e, d⟩ <;> rfl
      · rfl
    · rfl
    · rfl
  · rfl

theorem takeAll_associate (c : Client σ) :
    takeAll [.seek, .adopt] c .idle = (after associate c, .idle) := by
  rw [associate_eq_stages]
  simp only [takeAll, List.foldl_cons, List.foldl_nil, Step.take, after, bind_apply]
  rcases seekApproval c with ⟨record, d⟩ | ⟨e, d⟩
  · simp only [proceed]
    rcases Client.adopt record d with ⟨kept, d⟩ | ⟨e, d⟩ <;> rfl
  · rfl

end VaultLink.Client
