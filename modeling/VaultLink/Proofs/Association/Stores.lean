import VaultLink.Association.Store

/-!
# What is asked of a store

A store may fail to save a list. What the rest relies on is that it then keeps the old list
(`SteadyStore`), that it gives a saved list back (`DurableStore`), and that it blames itself and not the
connection (`CandidStore`). A store whose saves fail as foreseen (`FickleStore`) is all of this.
-/

namespace VaultLink

open AssociationStore (load save)

/-- A store that keeps its list when saving another one fails. -/
class SteadyStore (σ : Type) [AssociationStore σ] : Prop where
  load_of_save_eq_error {records : List StoredAssociation} {store store' : σ} {e : Error} :
    save records store = (.error e, store') → load store' = load store

/-- A store that gives back the list that was saved last. -/
class DurableStore (σ : Type) [AssociationStore σ] : Prop extends SteadyStore σ where
  load_of_save_eq_ok {records : List StoredAssociation} {store store' : σ} :
    save records store = (.ok (), store') → load store' = .ok records

/-- A store that fails with faults of a store. -/
class CandidStore (σ : Type) [AssociationStore σ] : Prop where
  exists_of_save_eq_error {records : List StoredAssociation} {store store' : σ} {e : Error} :
    save records store = (.error e, store') → ∃ cause, e = .store cause

instance : DurableStore MemoryStore where
  load_of_save_eq_error {records store store' e} h := by
    simp only [save] at h
    split at h <;> cases h
    rfl
  load_of_save_eq_ok {records store store'} h := by
    simp only [save] at h
    split at h <;> cases h
    rfl

instance : CandidStore MemoryStore where
  exists_of_save_eq_error {records store store' e} h := by
    simp only [save] at h
    split at h <;> cases h
    exact ⟨_, rfl⟩

theorem FileStore.exists_of_onFiles_eq_error {store store' : FileStore} {path : String}
    {action : FileAction Unit} {e : Error} (h : store.onFiles path action = (.error e, store')) :
    ∃ cause, e = .store cause := by
  unfold onFiles at h
  split at h <;> cases h
  exact ⟨_, rfl⟩

instance : CandidStore FileStore where
  exists_of_save_eq_error {records store store' e} h := by
    simp only [save, FileStore.save] at h
    split at h
    · exact FileStore.exists_of_onFiles_eq_error h
    · exact FileStore.exists_of_onFiles_eq_error h

/-- A store whose next saves fail as foreseen. -/
structure FickleStore where
  content : List StoredAssociation
  /-- Why each of the next saves fails, if it does; later ones do not. -/
  faults : List (Option StoreFault)

instance : AssociationStore FickleStore where
  load store := .ok store.content
  save records store :=
    match store.faults with
    | some cause :: faults => (.error (.store cause), { store with faults })
    | none :: faults => (.ok (), ⟨records, faults⟩)
    | [] => (.ok (), ⟨records, []⟩)

instance : DurableStore FickleStore where
  load_of_save_eq_error {records store store' e} h := by
    simp only [save] at h
    split at h <;> cases h
    rfl
  load_of_save_eq_ok {records store store'} h := by
    simp only [save] at h
    split at h <;> cases h <;> rfl

instance : CandidStore FickleStore where
  exists_of_save_eq_error {records store store' e} h := by
    simp only [save] at h
    split at h <;> cases h
    exact ⟨_, rfl⟩

end VaultLink
