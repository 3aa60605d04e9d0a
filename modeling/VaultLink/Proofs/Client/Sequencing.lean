import VaultLink.Client.Basic
import VaultLink.Proofs.Steps

/-!
# Steps of an operation, one after the other

What the pieces of an operation do to a client that is at hand, so that proofs follow a run from
client to client without opening the monad.
-/

namespace VaultLink.Client

export Steps (bind_apply bind_of_ok bind_of_error bind_eq_ok tryCatch_of_ok tryCatch_of_error pure_apply
  throw_apply get_apply modify_apply)

variable {σ α β : Type} {c c' : Client σ} {e : Error}

@[simp] theorem record_apply (note : Note) (c : Client σ) :
    record note c = .ok () { c with journal := c.journal ++ [note] } := rfl

@[simp] theorem ofExcept_ok (a : α) (c : Client σ) : ofExcept (.ok a) c = .ok a c := rfl

@[simp] theorem ofExcept_error (e : Error) (c : Client σ) :
    (ofExcept (.error e) : Run σ α) c = .error e c := rfl

theorem onSession_eq (f : Session → Except Error α × Session) (c : Client σ) :
    onSession f c = ofExcept (f c.session).1 { c with session := (f c.session).2 } := by
  unfold onSession
  rcases f c.session with ⟨_ | _, _⟩ <;> rfl

theorem onLink_eq (f : Link → Except Error α × Link) (c : Client σ) :
    onLink f c = ofExcept (f c.link).1 { c with link := (f c.link).2 } := by
  unfold onLink
  rcases f c.link with ⟨_ | _, _⟩ <;> rfl

theorem onRegistry_eq (f : Registry σ → Except Error α × Registry σ) (c : Client σ) :
    onRegistry f c = ofExcept (f c.registry).1 { c with registry := (f c.registry).2 } := by
  unfold onRegistry
  rcases f c.registry with ⟨_ | _, _⟩ <;> rfl

theorem ensureOpen_of_open (h : c.closed = false) : ensureOpen c = .ok () c := by
  show (if c.closed = true then throw Error.disconnected else pure () : Run σ Unit) c = _
  rw [h]
  rfl

theorem ensureOpen_of_closed (h : c.closed = true) : ensureOpen c = .error .disconnected c := by
  show (if c.closed = true then throw Error.disconnected else pure () : Run σ Unit) c = _
  rw [h]
  rfl

theorem closing_of_ok {m : Run σ α} {a : α} (h : m c = .ok a c') :
    closing m c = .ok a c' := by
  simp only [closing, h]

theorem closing_of_error {m : Run σ α} (h : m c = .error e c') :
    closing m c = .error e { c' with closed := breaksStream e || c'.closed } := by
  simp only [closing, h]
  cases breaksStream e <;> rfl

theorem closing_eq_ok_iff {m : Run σ α} {a : α} : closing m c = .ok a c' ↔ m c = .ok a c' := by
  rcases hm : m c with ⟨b, d⟩ | ⟨e, d⟩
  · rw [closing_of_ok hm]
  · simp [closing_of_error hm]

/-- The client that an operation leaves, done or failed. -/
def after (m : Run σ α) (c : Client σ) : Client σ :=
  match m c with
  | .ok _ c' => c'
  | .error _ c' => c'

theorem after_of_ok {m : Run σ α} {a : α} (h : m c = .ok a c') :
    after m c = c' := by
  simp only [after, h]

theorem after_of_error {m : Run σ α} (h : m c = .error e c') :
    after m c = c' := by
  simp only [after, h]

theorem after_bind_of_ok {m : Run σ α} {a : α} (h : m c = .ok a c') (f : α → Run σ β) :
    after (m >>= f) c = after (f a) c' := by
  rw [after, bind_of_ok h]
  rfl

theorem after_bind_of_error {m : Run σ α} (h : m c = .error e c') (f : α → Run σ β) :
    after (m >>= f) c = c' :=
  after_of_error (bind_of_error h f)

theorem after_tryCatch_of_error {m : Run σ α} (h : m c = .error e c') (handle : Error → Run σ α) :
    after (tryCatch m handle) c = after (handle e) c' := by
  rw [after, tryCatch_of_error h]
  rfl

theorem after_onRegistry (f : Registry σ → Except Error α × Registry σ) (c : Client σ) :
    after (onRegistry f) c = { c with registry := (f c.registry).2 } := by
  rw [after, onRegistry_eq]
  rcases f c.registry with ⟨_ | _, _⟩ <;> rfl

/-- A closed client does nothing. -/
theorem after_ensureOpen_of_closed (h : c.closed = true) (f : Unit → Run σ α) :
    after (ensureOpen >>= f) c = c :=
  after_of_error (bind_of_error (ensureOpen_of_closed h) f)

end VaultLink.Client
