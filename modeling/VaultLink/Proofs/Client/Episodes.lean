import VaultLink.Proofs.Client.Run

/-!
# Episodes of a run

An operation may exchange more than one message. An episode is one exchange with what the client
makes of the reply, or a change on one side alone (`Episode`); it fits where it starts if a
privileged request is sent only with a validated association (`Episode.Fits`). Whatever an operation
does, it does by a row of episodes each of which fits (`leads_perform`), and the moves of a run do so
one after the other (`exists_retraces`).
-/

namespace VaultLink.Client

variable {σ α β : Type}

/-- Asks whether an association is accepted, and takes it for validated if it is. -/
def confirm (record : Association) : Run σ Unit := do
  if (← testAssociate record) = .valid then
    modify fun c => { c with association := .validated }

theorem after_confirm_of_ok {record : Association} {c d : Client σ} {outcome : TestOutcome}
    (h : testAssociate record c = .ok outcome d) :
    after (confirm record) c =
      if outcome = .valid then { d with association := .validated } else d := by
  rw [after, confirm, bind_of_ok h]
  cases outcome <;> rfl

theorem after_confirm_of_error {record : Association} {c d : Client σ} {e : Error}
    (h : testAssociate record c = .error e d) : after (confirm record) c = d :=
  after_of_error (bind_of_error h _)

/-- What runs are made of. -/
inductive Episode (σ : Type) where
  | shakeHands
  | nextEvent
  | getDatabaseHash (triggerUnlock : Bool)
  | associate
  | testAssociate (record : Association)
  | confirm (record : Association)
  /-- Any other request in a box, and its reply. -/
  | exchange (action : Action) (fields : Json.Members) (triggerUnlock : Bool)
  /-- What is known of the database is forgotten. -/
  | forget
  /-- The association turns out to be none. -/
  | disown
  /-- The other end of the link acts, and time passes. -/
  | proxy (arrivals : List Arrival) (clock : Instant) (writeFault : Option String)
      (answers : List (List Bytes → List Arrival))
  /-- The registry changes. -/
  | share (registry : Registry σ)

namespace Episode

variable [AssociationStore σ]

/-- The client after an episode. -/
def apply : Episode σ → Client σ → Client σ
  | shakeHands, c => after Client.shakeHands c
  | nextEvent, c => after Client.nextEvent c
  | getDatabaseHash triggerUnlock, c => after (Client.getDatabaseHash triggerUnlock) c
  | associate, c => after Client.associate c
  | testAssociate record, c => after (Client.testAssociate record) c
  | confirm record, c => after (Client.confirm record) c
  | exchange action fields triggerUnlock, c => after (roundTrip action fields triggerUnlock) c
  | forget, c => after forgetDatabase c
  | disown, c => { c with association := .notAssociated }
  | proxy arrivals clock writeFault answers, c =>
    { c with link := { c.link with arrivals, clock, writeFault, answers } }
  | share registry, c => { c with registry }

/-- A request whose reply says nothing of the database fits, but a privileged one only if the
association is validated; other episodes fit anywhere. -/
def Fits : Episode σ → Client σ → Prop
  | exchange action _ _, c => action ≠ .getDatabaseHash ∧
    (action.requiresAssociation = true → c.association = .validated)
  | _, _ => True

end Episode

variable [AssociationStore σ]

/-- The client after a row of episodes. -/
def play (row : List (Episode σ)) (c : Client σ) : Client σ := row.foldl (fun c e => e.apply c) c

theorem play_cons (e : Episode σ) (row : List (Episode σ)) (c : Client σ) :
    play (e :: row) c = play row (e.apply c) := rfl

theorem play_append (row more : List (Episode σ)) (c : Client σ) :
    play (row ++ more) c = play more (play row c) := List.foldl_append

/-- Every episode of a row has a property where it starts. -/
def Throughout (P : Episode σ → Client σ → Prop) : List (Episode σ) → Client σ → Prop
  | [], _ => True
  | e :: row, c => P e c ∧ Throughout P row (e.apply c)

theorem throughout_append {P : Episode σ → Client σ → Prop} {row more : List (Episode σ)}
    {c : Client σ} :
    Throughout P (row ++ more) c ↔ Throughout P row c ∧ Throughout P more (play row c) := by
  induction row generalizing c with
  | nil => exact ⟨fun h => ⟨trivial, h⟩, And.right⟩
  | cons e row ih => simp only [List.cons_append, Throughout, ih, play_cons, and_assoc]

/-- From `c` to `d` by a row of episodes that fit. -/
def Leads (c d : Client σ) : Prop := ∃ row, Throughout Episode.Fits row c ∧ play row c = d

namespace Leads

variable {c d f : Client σ}

theorem refl (c : Client σ) : Leads c c := ⟨[], trivial, rfl⟩

theorem trans : Leads c d → Leads d f → Leads c f := by
  rintro ⟨row, hr, rfl⟩ ⟨more, hm, rfl⟩
  exact ⟨row ++ more, throughout_append.2 ⟨hr, hm⟩, play_append row more c⟩

theorem single (e : Episode σ) (h : e.Fits c) : Leads c (e.apply c) := ⟨[e], ⟨h, trivial⟩, rfl⟩

end Leads

/-- What an operation does from `c`, it does by a row of episodes that fit. -/
def Enacts (m : Run σ α) (c : Client σ) : Prop := Leads c (after m c)

namespace Enacts

variable {c : Client σ}

theorem pure (a : α) (c : Client σ) : Enacts (pure a) c := .refl c

theorem throw (e : Error) (c : Client σ) : Enacts (throw e : Run σ α) c := .refl c

theorem ofExcept (result : Except Error α) (c : Client σ) : Enacts (ofExcept result) c := by
  cases result
  · exact .throw _ c
  · exact .pure _ c

theorem bind {m : Run σ α} {f : α → Run σ β} (hm : Enacts m c)
    (hf : ∀ a d, m c = .ok a d → Enacts (f a) d) : Enacts (m >>= f) c := by
  unfold Enacts at hm ⊢
  rcases h : m c with ⟨a, d⟩ | ⟨e, d⟩
  · rw [after_of_ok h] at hm
    rw [after, bind_of_ok h]
    exact hm.trans (hf a d h)
  · rw [after_of_error h] at hm
    rw [after, bind_of_error h]
    exact hm

/-- Looking at the client changes nothing. -/
theorem get_bind {f : Client σ → Run σ β} (h : Enacts (f c) c) : Enacts (get >>= f) c :=
  .bind (.refl c) fun _ _ hc => by cases hc; exact h

theorem tryCatch {m : Run σ α} {handle : Error → Run σ α} (hm : Enacts m c)
    (hh : ∀ e d, Enacts (handle e) d) : Enacts (tryCatch m handle) c := by
  unfold Enacts at hm ⊢
  rcases h : m c with ⟨a, d⟩ | ⟨e, d⟩
  · rw [after_of_ok h] at hm
    rw [after, tryCatch_of_ok h]
    exact hm
  · rw [after_of_error h] at hm
    rw [after, tryCatch_of_error h]
    exact hm.trans (hh e d)

theorem roundTrip {action : Action} (hd : action ≠ .getDatabaseHash)
    (ha : action.requiresAssociation = true → c.association = .validated) (fields : Json.Members)
    (triggerUnlock : Bool) : Enacts (roundTrip action fields triggerUnlock) c :=
  .single (.exchange action fields triggerUnlock) ⟨hd, ha⟩

theorem onRegistry (f : Registry σ → Except Error α × Registry σ) (c : Client σ) :
    Enacts (onRegistry f) c := by
  rw [Enacts, after_onRegistry]
  exact .single (.share _) trivial

theorem ensureEstablished (c : Client σ) : Enacts ensureEstablished c :=
  .get_bind (.bind (.ofExcept _ c) fun _ d _ => .pure _ d)

theorem conform (reader : Json.Conform α) (value : Json) (c : Client σ) :
    Enacts (conform reader value) c := by
  unfold Client.conform
  split
  · exact .pure _ c
  · exact .throw _ c

theorem unlessRejected (code : ErrorCode) (instead : α) {operation : Run σ α}
    (h : Enacts operation c) : Enacts (unlessRejected code instead operation) c := by
  refine .tryCatch h fun e d => ?_
  split
  · split
    · exact .pure _ d
    · exact .throw _ d
  · exact .throw _ d

theorem testAssociation (databaseId : String) (c : Client σ) :
    Enacts (testAssociation databaseId) c := by
  refine .bind (.ensureEstablished c) fun _ d _ => .get_bind ?_
  split
  · exact .single (.testAssociate _) trivial
  · exact .pure _ d

theorem currentDatabase (c : Client σ) : Enacts currentDatabase c := by
  refine .get_bind ?_
  split
  · exact .pure _ c
  · exact .get_bind (.single (.getDatabaseHash _) trivial)

theorem generatePassword (c : Client σ) : Enacts generatePassword c := by
  refine .bind (.roundTrip (by decide) (fun h => absurd h (by decide)) _ _) fun _ d _ => ?_
  split
  · exact .pure _ d
  · exact .throw _ d

theorem lockDatabase (c : Client σ) : Enacts lockDatabase c := by
  refine .bind (.tryCatch (.bind (.roundTrip (by decide) (fun h => absurd h (by decide)) _ _)
    fun _ d _ => .pure _ d) ?_) fun _ d _ => .single .forget trivial
  intro e d
  split
  · exact .pure _ d
  · exact .pure _ d
  · exact .throw _ d

/-- An operation that checks a record and takes it for validated if it is found valid. -/
theorem confirm {record : Association} {f : TestOutcome → Run σ β}
    (hvalid : ∀ d, after (f .valid) d = { d with association := .validated })
    (hother : ∀ outcome d, outcome ≠ .valid → Enacts (f outcome) d) :
    Enacts (testAssociate record >>= f) c := by
  have hconfirm : Leads c (after (Client.confirm record) c) := .single (.confirm record) trivial
  unfold Enacts
  rcases h : testAssociate record c with ⟨outcome, d⟩ | ⟨e, d⟩
  · have hf : after (testAssociate record >>= f) c = after (f outcome) d := by
      rw [after, bind_of_ok h]
      rfl
    rw [after_confirm_of_ok h] at hconfirm
    rw [hf]
    by_cases ho : outcome = .valid
    · rw [if_pos ho, ← hvalid d, ← ho] at hconfirm
      exact hconfirm
    · rw [if_neg ho] at hconfirm
      exact hconfirm.trans (hother outcome d ho)
  · rw [after_confirm_of_error h] at hconfirm
    rw [after_of_error (bind_of_error h f)]
    exact hconfirm

theorem ensureAssociated (c : Client σ) : Enacts ensureAssociated c := by
  refine .bind (.ensureEstablished c) fun _ d _ =>
    .bind (.currentDatabase d) fun hash d _ => .get_bind ?_
  split
  · exact .bind (.single .disown trivial) fun _ d _ => .throw _ d
  · refine .get_bind ?_
    split
    · exact .pure _ d
    · refine .confirm (fun d => rfl) fun outcome d ho => ?_
      cases outcome with
      | valid => exact absurd rfl ho
      | invalid | notFound =>
        refine .get_bind ?_
        simp only
        split
        · exact .throw _ d
        · refine .bind (.onRegistry _ d) fun _ d _ => ?_
          exact .bind (.single .disown trivial) fun _ d _ => .throw _ d

end Enacts

/-- A client that made sure of its association takes it for validated. -/
theorem validated_of_ensureAssociated {c d : Client σ} {record : Association}
    (h : ensureAssociated c = .ok record d) : d.association = .validated := by
  obtain ⟨-, c₁, -, h⟩ := bind_eq_ok h
  obtain ⟨hash, c₂, -, h⟩ := bind_eq_ok h
  obtain ⟨_, _, hget, h⟩ := bind_eq_ok h
  cases hget
  rcases hl : c₂.registry.lookup hash with _ | found
  · simp only [hl] at h
    cases h
  · simp only [hl] at h
    obtain ⟨_, _, hget, h⟩ := bind_eq_ok h
    cases hget
    split at h
    · cases h
      assumption
    · obtain ⟨outcome, c₃, -, h⟩ := bind_eq_ok h
      cases outcome with
      | valid => cases h; rfl
      | invalid | notFound =>
        obtain ⟨_, _, hget, h⟩ := bind_eq_ok h
        cases hget
        split at h
        · cases h
        · obtain ⟨_, _, -, h⟩ := bind_eq_ok h
          cases h

namespace Enacts

variable {c : Client σ}

/-- After a client made sure of its association, a privileged request fits. -/
theorem ensured {f : Association → Run σ β}
    (hf : ∀ record d, d.association = .validated → Enacts (f record) d) :
    Enacts (Client.ensureAssociated >>= f) c :=
  .bind (.ensureAssociated c) fun record d h => hf record d (validated_of_ensureAssociated h)

theorem privileged {action : Action} (hd : action ≠ .getDatabaseHash)
    (fields : Client σ → Json.Members) (c : Client σ) : Enacts (privileged action fields) c :=
  .ensured fun _ _ hv => .get_bind (.roundTrip hd (fun _ => hv) _ _)

theorem getLogins (query : LoginQuery) (c : Client σ) : Enacts (getLogins query) c := by
  refine .ensured fun _ d hv => .get_bind (.bind (.unlessRejected _ _ ?_) fun entries d _ => ?_)
  · exact .bind (.roundTrip (by decide) (fun _ => hv) _ _) fun _ d _ => .pure _ d
  · split
    · exact .pure _ d
    · exact .conform _ _ d

theorem findLogin (url : String) (login : Option String) (password : String) (c : Client σ) :
    Enacts (findLogin url login password) c :=
  .bind (.getLogins _ c) fun _ d _ => .pure _ d

theorem setLogin (update : LoginUpdate) (c : Client σ) : Enacts (setLogin update) c :=
  .ensured fun _ _ hv => .bind (.roundTrip (by decide) (fun _ => hv) _ _) fun _ d _ => .pure _ d

theorem getDatabaseGroups (c : Client σ) : Enacts getDatabaseGroups c := by
  refine .ensured fun _ d hv => .bind (.unlessRejected _ _ ?_) fun groups d _ => ?_
  · exact .bind (.roundTrip (by decide) (fun _ => hv) _ _) fun _ d _ => .pure _ d
  · split
    · exact .pure _ d
    · exact .bind (.conform _ _ d) fun _ d _ => .pure _ d

theorem createNewGroup (name : String) (c : Client σ) : Enacts (createNewGroup name) c :=
  .bind (.privileged (by decide) _ c) fun _ d _ =>
    .bind (.ofExcept _ d) fun _ d _ => .bind (.ofExcept _ d) fun _ d _ => .pure _ d

theorem getTotp (uuid : String) (c : Client σ) : Enacts (getTotp uuid) c :=
  .bind (.privileged (by decide) _ c) fun _ d _ => .pure _ d

theorem deleteEntry (uuid : String) (c : Client σ) : Enacts (deleteEntry uuid) c :=
  .bind (.privileged (by decide) _ c) fun _ d _ => .pure _ d

theorem requestAutotype (search : String) (c : Client σ) : Enacts (requestAutotype search) c :=
  .bind (.privileged (by decide) _ c) fun _ d _ => .pure _ d

theorem passkeys {action : Action} (hd : action ≠ .getDatabaseHash) (publicKey : Json)
    (origin : String) (c : Client σ) : Enacts (passkeys action publicKey origin) c := by
  refine .bind (.privileged hd _ c) fun reply d _ => ?_
  split
  · exact .pure _ d
  · exact .throw _ d

end Enacts

theorem leads_perform (operation : Operation) (c : Client σ) : Leads c (perform operation c) := by
  cases operation with
  | shakeHands => exact .single .shakeHands trivial
  | nextEvent => exact .single .nextEvent trivial
  | getDatabaseHash => exact .single (.getDatabaseHash _) trivial
  | associate => exact .single .associate trivial
  | testAssociate => exact .single (.testAssociate _) trivial
  | testAssociation => exact Enacts.testAssociation _ c
  | ensureAssociated => exact Enacts.ensureAssociated c
  | generatePassword => exact Enacts.generatePassword c
  | getLogins => exact Enacts.getLogins _ c
  | findLogin => exact Enacts.findLogin _ _ _ c
  | setLogin => exact Enacts.setLogin _ c
  | getDatabaseGroups => exact Enacts.getDatabaseGroups c
  | createNewGroup => exact Enacts.createNewGroup _ c
  | getTotp => exact Enacts.getTotp _ c
  | deleteEntry => exact Enacts.deleteEntry _ c
  | requestAutotype => exact Enacts.requestAutotype _ c
  | lockDatabase => exact Enacts.lockDatabase c
  | passkeysRegister => exact Enacts.passkeys (by decide) _ _ c
  | passkeysGet => exact Enacts.passkeys (by decide) _ _ c

/-- A row of episodes is what the moves of a run do from `c`, each move by a part of the row. -/
def Retraces : List (Move σ) → List (Episode σ) → Client σ → Prop
  | [], row, _ => row = []
  | move :: moves, row, c => ∃ own rest, row = own ++ rest ∧ play own c = move.apply c ∧
    Retraces moves rest (move.apply c)

theorem Retraces.play_eq {moves : List (Move σ)} {row : List (Episode σ)} {c : Client σ}
    (h : Retraces moves row c) : play row c = run moves c := by
  induction moves generalizing row c with
  | nil =>
    cases h
    rfl
  | cons move moves ih =>
    obtain ⟨own, rest, rfl, hown, hrest⟩ := h
    rw [play_append, hown]
    exact ih hrest

theorem exists_retraces (moves : List (Move σ)) (c : Client σ) :
    ∃ row, Throughout Episode.Fits row c ∧ Retraces moves row c := by
  induction moves generalizing c with
  | nil => exact ⟨[], trivial, rfl⟩
  | cons move moves ih =>
    have hmove : Leads c (move.apply c) := by
      cases move with
      | call operation => exact leads_perform operation c
      | proxy => exact .single (.proxy _ _ _ _) trivial
      | share => exact .single (.share _) trivial
    obtain ⟨own, hown, hplay⟩ := hmove
    obtain ⟨rest, hrest, hretraces⟩ := ih (move.apply c)
    exact ⟨own ++ rest, throughout_append.2 ⟨hown, hplay.symm ▸ hrest⟩,
      own, rest, rfl, hplay, hretraces⟩

end VaultLink.Client
