import VaultLink.Proofs.Client.Run

/-!
# Calls of operations

A call of an operation is a program without a value of its own (`Operation.call`), which tells whether
and how the call fails. Some operations make sure of the association first (`Operation.ensures`), and
from then on they converse: they exchange messages and look at what came, and change nothing else
(`Converses`, `ensuresFirst_call`). Whatever relation a round trip keeps, such a program keeps
(`Converses.related`).
-/

namespace VaultLink

namespace Operation

/-- Whether the operation makes sure of the association first. -/
def ensures : Operation → Bool
  | shakeHands | nextEvent | getDatabaseHash _ | associate | testAssociate _ | testAssociation _
  | generatePassword | lockDatabase => false
  | _ => true

/-- A call of the operation. -/
def call {σ : Type} [AssociationStore σ] : Operation → Run σ Unit
  | shakeHands => Client.shakeHands
  | nextEvent => do let _ ← Client.nextEvent
  | getDatabaseHash triggerUnlock => do let _ ← Client.getDatabaseHash triggerUnlock
  | associate => do let _ ← Client.associate
  | testAssociate record => do let _ ← Client.testAssociate record
  | testAssociation databaseId => do let _ ← Client.testAssociation databaseId
  | ensureAssociated => do let _ ← Client.ensureAssociated
  | generatePassword => do let _ ← Client.generatePassword
  | getLogins query => do let _ ← Client.getLogins query
  | findLogin url login password => do let _ ← Client.findLogin url login password
  | setLogin update => do let _ ← Client.setLogin update
  | getDatabaseGroups => do let _ ← Client.getDatabaseGroups
  | createNewGroup name => do let _ ← Client.createNewGroup name
  | getTotp uuid => do let _ ← Client.getTotp uuid
  | deleteEntry uuid => Client.deleteEntry uuid
  | requestAutotype search => Client.requestAutotype search
  | lockDatabase => Client.lockDatabase
  | passkeysRegister publicKey origin => do let _ ← Client.passkeysRegister publicKey origin
  | passkeysGet publicKey origin => do let _ ← Client.passkeysGet publicKey origin

end Operation

namespace Client

variable {σ α β : Type} {c d : Client σ}

theorem after_bind_pure (m : Run σ α) (c : Client σ) :
    after (do let _ ← m) c = after m c := by
  rcases h : m c with ⟨a, d⟩ | ⟨e, d⟩
  · rw [after_of_ok h, after, bind_of_ok h]
    rfl
  · rw [after_of_error h, after_of_error (bind_of_error h _)]

/-- A relation goes from the start to the end of two programs in a row if it goes through each. -/
theorem related_bind {R : Client σ → Client σ → Prop} (htrans : ∀ {b c d}, R b c → R c d → R b d)
    {m : Run σ α} {f : α → Run σ β} (hm : R c (after m c))
    (hf : ∀ a d, m c = .ok a d → R d (after (f a) d)) : R c (after (m >>= f) c) := by
  rcases hc : m c with ⟨a, d⟩ | ⟨e, d⟩
  · rw [after_of_ok hc] at hm
    rw [after, bind_of_ok hc]
    exact htrans hm (hf a d hc)
  · rw [after_of_error hc] at hm
    rw [after_of_error (bind_of_error hc f)]
    exact hm

/-- A program that exchanges messages and looks at the client, and changes nothing by itself. -/
inductive Converses : {α : Type} → Run σ α → Prop
  | pure {α : Type} (a : α) : Converses (pure a)
  | throw {α : Type} (e : Error) : Converses (throw e : Run σ α)
  | get : Converses get
  | roundTrip (action : Action) (fields : Json.Members) (triggerUnlock : Bool) :
    Converses (roundTrip action fields triggerUnlock)
  | bind {α β : Type} {m : Run σ α} {f : α → Run σ β} :
    Converses m → (∀ a, Converses (f a)) → Converses (m >>= f)
  | tryCatch {α : Type} {m : Run σ α} {handle : Error → Run σ α} :
    Converses m → (∀ e, Converses (handle e)) → Converses (tryCatch m handle)

namespace Converses

/-- A relation that round trips keep holds between the start and the end of every conversation. -/
theorem related {R : Client σ → Client σ → Prop} (hrefl : ∀ c, R c c)
    (htrans : ∀ {b c d}, R b c → R c d → R b d)
    (hround : ∀ action fields triggerUnlock c,
      R c (after (Client.roundTrip action fields triggerUnlock) c))
    {m : Run σ α} (h : Converses m) (c : Client σ) : R c (after m c) := by
  induction h generalizing c with
  | pure | throw | get => exact hrefl c
  | roundTrip action fields triggerUnlock => exact hround action fields triggerUnlock c
  | bind _ _ ihm ihf => exact related_bind (R := R) htrans (ihm c) fun a d _ => ihf a d
  | @tryCatch _ m handle _ _ ihm ihh =>
    have hm := ihm c
    rcases hc : m c with ⟨a, d⟩ | ⟨e, d⟩
    · rw [after_of_ok hc] at hm
      rw [after_of_ok (tryCatch_of_ok hc handle)]
      exact hm
    · rw [after_of_error hc] at hm
      rw [after, tryCatch_of_error hc]
      exact htrans hm (ihh e d)

theorem ofExcept (result : Except Error α) : Converses (ofExcept result : Run σ α) := by
  cases result
  · exact .throw _
  · exact .pure _

theorem conform (reader : Json.Conform α) (value : Json) :
    Converses (conform reader value : Run σ α) := by
  unfold Client.conform
  split
  · exact .pure _
  · exact .throw _

theorem unlessRejected (code : ErrorCode) (instead : α) {operation : Run σ α}
    (h : Converses operation) : Converses (unlessRejected code instead operation) := by
  refine .tryCatch h fun e => ?_
  split
  · split
    · exact .pure _
    · exact .throw _
  · exact .throw _

theorem generatePassword : Converses (generatePassword : Run σ String) := by
  refine .bind (.roundTrip _ _ _) fun reply => ?_
  split
  · exact .pure _
  · exact .throw _

end Converses

/-- Locking the database converses and then forgets what was known of it. -/
theorem exists_lockDatabase_eq :
    ∃ m : Run σ Unit, lockDatabase = (do m; forgetDatabase) ∧ Converses m := by
  refine ⟨_, rfl, .tryCatch (.bind (.roundTrip _ _ _) fun _ => .pure _) fun e => ?_⟩
  split
  · exact .pure _
  · exact .pure _
  · exact .throw _

variable [AssociationStore σ]

/-- A program that makes sure of the association and then converses. -/
def EnsuresFirst (m : Run σ α) : Prop :=
  ∃ f : Association → Run σ α, m = Client.ensureAssociated >>= f ∧ ∀ record, Converses (f record)

namespace EnsuresFirst

theorem bind {m : Run σ α} {f : α → Run σ β} (h : EnsuresFirst m) (hf : ∀ a, Converses (f a)) :
    EnsuresFirst (m >>= f) := by
  obtain ⟨g, rfl, hg⟩ := h
  exact ⟨fun record => g record >>= f, bind_assoc _ _ _, fun record => .bind (hg record) hf⟩

theorem ensureAssociated : EnsuresFirst (ensureAssociated : Run σ Association) :=
  ⟨pure, (bind_pure _).symm, fun _ => .pure _⟩

theorem privileged (action : Action) (fields : Client σ → Json.Members) :
    EnsuresFirst (privileged action fields) :=
  ⟨_, rfl, fun _ => .bind .get fun _ => .roundTrip _ _ _⟩

theorem getLogins (query : LoginQuery) : EnsuresFirst (getLogins query : Run σ (List LoginEntry)) := by
  refine ⟨_, rfl, fun _ => .bind .get fun _ => .bind (.unlessRejected _ _ ?_) fun entries => ?_⟩
  · exact .bind (.roundTrip _ _ _) fun _ => .pure _
  · split
    · exact .pure _
    · exact .conform _ _

theorem getDatabaseGroups : EnsuresFirst (getDatabaseGroups : Run σ GroupTree) := by
  refine ⟨_, rfl, fun _ => .bind (.unlessRejected _ _ ?_) fun groups => ?_⟩
  · exact .bind (.roundTrip _ _ _) fun _ => .pure _
  · split
    · exact .pure _
    · exact .bind (.conform _ _) fun _ => .pure _

theorem passkeys (action : Action) (publicKey : Json) (origin : String) :
    EnsuresFirst (passkeys action publicKey origin : Run σ Json) := by
  refine .bind (.privileged _ _) fun reply => ?_
  split
  · exact .pure _
  · exact .throw _

end EnsuresFirst

/-- An operation that makes sure of the association converses afterwards. -/
theorem ensuresFirst_call {operation : Operation} (h : operation.ensures = true) :
    EnsuresFirst (operation.call : Run σ Unit) := by
  cases operation with
  | shakeHands | nextEvent | getDatabaseHash | associate | testAssociate | testAssociation
  | generatePassword | lockDatabase => cases h
  | ensureAssociated => exact .bind .ensureAssociated fun _ => .pure _
  | getLogins => exact .bind (.getLogins _) fun _ => .pure _
  | findLogin => exact .bind (.bind (.getLogins _) fun _ => .pure _) fun _ => .pure _
  | setLogin =>
    exact .bind ⟨_, rfl, fun _ => .bind (.roundTrip _ _ _) fun _ => .pure _⟩ fun _ => .pure _
  | getDatabaseGroups => exact .bind .getDatabaseGroups fun _ => .pure _
  | createNewGroup =>
    exact .bind (.bind (.privileged _ _) fun _ => .bind (.ofExcept _) fun _ =>
      .bind (.ofExcept _) fun _ => .pure _) fun _ => .pure _
  | getTotp => exact .bind (.bind (.privileged _ _) fun _ => .pure _) fun _ => .pure _
  | deleteEntry | requestAutotype => exact .bind (.privileged _ _) fun _ => .pure _
  | passkeysRegister | passkeysGet => exact .bind (.passkeys _ _ _) fun _ => .pure _

/-- A call leaves the client that the operation leaves. -/
theorem after_call (operation : Operation) (c : Client σ) :
    after operation.call c = perform operation c := by
  cases operation with
  | shakeHands | deleteEntry | requestAutotype | lockDatabase => rfl
  | _ => exact after_bind_pure _ c

end Client

end VaultLink
