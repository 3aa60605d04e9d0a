/-!
# Steps, one after the other

What two steps give together is said by what each of them gives: for steps that may fail, and for steps
that may fail and change a state on the way, also when they fail.
-/

namespace VaultLink

/-- Of two steps the second one gets what the first one gave. -/
theorem bind_eq_ok {ε α β : Type} {x : Except ε α} {f : α → Except ε β} {b : β} :
    x >>= f = .ok b ↔ ∃ a, x = .ok a ∧ f a = .ok b := by
  cases x with
  | error e => exact ⟨nofun, fun ⟨_, h, _⟩ => by cases h⟩
  | ok a => exact ⟨fun h => ⟨a, rfl, h⟩, fun ⟨_, h, hf⟩ => by cases h; exact hf⟩

/-- They fail if the first one does, or the second one with what the first one gave. -/
theorem bind_eq_error {ε α β : Type} {x : Except ε α} {f : α → Except ε β} {e : ε} :
    x >>= f = .error e ↔ x = .error e ∨ ∃ a, x = .ok a ∧ f a = .error e := by
  constructor
  · intro h
    cases x with
    | error e =>
      cases h
      exact .inl rfl
    | ok a => exact .inr ⟨a, rfl, h⟩
  · rintro (rfl | ⟨a, rfl, h⟩)
    · rfl
    · exact h

namespace Steps

variable {ε ς α β : Type} {s t : ς} {e : ε}

theorem bind_apply (m : EStateM ε ς α) (f : α → EStateM ε ς β) (s : ς) :
    (m >>= f) s = match m s with
      | .ok a s => f a s
      | .error e s => .error e s := by
  show EStateM.bind m f s = _
  unfold EStateM.bind
  rcases m s with ⟨_, _⟩ | ⟨_, _⟩ <;> rfl

theorem bind_of_ok {m : EStateM ε ς α} {a : α} (h : m s = .ok a t) (f : α → EStateM ε ς β) :
    (m >>= f) s = f a t := by
  rw [bind_apply, h]

theorem bind_of_error {m : EStateM ε ς α} (h : m s = .error e t) (f : α → EStateM ε ς β) :
    (m >>= f) s = .error e t := by
  rw [bind_apply, h]

theorem bind_eq_ok {m : EStateM ε ς α} {f : α → EStateM ε ς β} {b : β} (h : (m >>= f) s = .ok b t) :
    ∃ a d, m s = .ok a d ∧ f a d = .ok b t := by
  rcases hm : m s with ⟨a, d⟩ | ⟨e, d⟩
  · exact ⟨a, d, rfl, (bind_of_ok hm f).symm.trans h⟩
  · rw [bind_of_error hm] at h
    cases h

theorem tryCatch_of_ok {m : EStateM ε ς α} {a : α} (h : m s = .ok a t)
    (handle : ε → EStateM ε ς α) : tryCatch m handle s = .ok a t := by
  show EStateM.tryCatch m handle s = .ok a t
  delta EStateM.tryCatch
  simp only [h]

theorem tryCatch_of_error {m : EStateM ε ς α} (h : m s = .error e t) (handle : ε → EStateM ε ς α) :
    tryCatch m handle s = handle e t := by
  show EStateM.tryCatch m handle s = handle e t
  delta EStateM.tryCatch
  simp only [h]
  rfl

@[simp] theorem pure_apply (a : α) (s : ς) : (pure a : EStateM ε ς α) s = .ok a s := rfl

@[simp] theorem throw_apply (e : ε) (s : ς) : (throw e : EStateM ε ς α) s = .error e s := rfl

@[simp] theorem get_apply (s : ς) : (get : EStateM ε ς ς) s = .ok s s := rfl

@[simp] theorem modify_apply (g : ς → ς) (s : ς) : (modify g : EStateM ε ς Unit) s = .ok () (g s) := rfl

end Steps

end VaultLink
