import VaultLink.Association.Registry

/-!
# What a registry shows after a change

The records of a registry are told by what is found under each database (`Registry.lookup`). A change is made
before it is saved; if the store does not take it, it is taken back, and all that is left of it is in the
store (`insert_of_error`, `evict_of_error`). So filing a record changes what is found under its own database
and nothing else (`lookup_insert_eq_ok`), and so does removing one (`lookup_evict_eq_ok`), and a change that
the store does not take changes nothing (`lookup_insert_eq_error`, `lookup_evict_eq_error`).
-/

namespace VaultLink.Registry

open AssociationStore (save)

variable {σ : Type} {registry registry' saved failed : Registry σ} {record : Association}
  {databaseId id : String} {e : Error}

/-- Two registries with the same records and the same store are one. -/
theorem eq_of_records_eq (hr : registry'.records = registry.records)
    (hs : registry'.store = registry.store) : registry' = registry := by
  cases registry
  cases registry'
  cases hr
  cases hs
  rfl

theorem lookup_file (record : Association) (id : String) (registry : Registry σ) :
    (registry.file record).lookup id =
      if record.databaseId = id then some record else registry.lookup id :=
  Table.get?_insert record.databaseId id record registry.records

theorem lookup_drop (databaseId id : String) :
    (registry.drop databaseId).lookup id = if databaseId = id then none else registry.lookup id :=
  Table.get?_erase databaseId id registry.records

/-- What was filed under a hash is put back there. -/
theorem put_of_changed (hid : record.databaseId = databaseId)
    (hl : registry.lookup databaseId = some record)
    (heq : ∀ id, databaseId ≠ id → registry'.lookup id = registry.lookup id) :
    registry'.put databaseId record hid = { registry with store := registry'.store } :=
  eq_of_records_eq
    (Table.insert_of_changed registry.sound.ordered registry'.sound.ordered hl heq) rfl

/-- If nothing was filed under a hash, what is filed there now is taken away. -/
theorem drop_of_changed (hl : registry.lookup databaseId = none)
    (heq : ∀ id, databaseId ≠ id → registry'.lookup id = registry.lookup id) :
    registry'.drop databaseId = { registry with store := registry'.store } :=
  eq_of_records_eq
    (Table.erase_of_changed registry.sound.ordered registry'.sound.ordered hl heq) rfl

variable [AssociationStore σ]

/-! ## Saving -/

/-- Saving changes the store only. -/
theorem records_of_persist {result : Except Error Unit} (h : registry.persist = (result, registry')) :
    registry'.records = registry.records := by
  cases h
  rfl

theorem save_of_persist {result : Except Error Unit} (h : registry.persist = (result, registry')) :
    save (registry.records.map Association.toStored) registry.store = (result, registry'.store) := by
  cases h
  rfl

theorem persist_of_save {result : Except Error Unit} {store : σ}
    (h : save (registry.records.map Association.toStored) registry.store = (result, store)) :
    registry.persist = (result, { registry with store }) := by
  rw [persist, h]

theorem lookup_of_persist {result : Except Error Unit} (h : registry.persist = (result, registry')) :
    registry'.lookup = registry.lookup := by
  cases h
  rfl

/-! ## Filing a record -/

theorem insert_of_ok (h : (registry.file record).persist = (.ok (), saved)) :
    registry.insert record = (.ok (), saved) := by
  rw [insert, h]

/-- A record that the store does not take is taken back. -/
theorem insert_of_error
    (h : (registry.file record).persist = (.error e, failed)) :
    registry.insert record = (.error e, { registry with store := failed.store }) := by
  have heq (id : String) (hne : record.databaseId ≠ id) : failed.lookup id = registry.lookup id := by
    rw [lookup_of_persist h, lookup_file, if_neg hne]
  rw [insert, h]
  simp only
  split
  · rename_i previous hprevious
    rw [put_of_changed _ hprevious heq]
  · rename_i hnone
    rw [drop_of_changed hnone heq]

theorem insert_eq_ok (h : registry.insert record = (.ok (), saved)) :
    (registry.file record).persist = (.ok (), saved) := by
  rcases hp : (registry.file record).persist with ⟨e | ⟨⟩, next⟩
  · cases (insert_of_error hp).symm.trans h
  · cases (insert_of_ok hp).symm.trans h
    rfl

theorem insert_eq_error (h : registry.insert record = (.error e, registry')) :
    ∃ failed, (registry.file record).persist = (.error e, failed) ∧
      registry' = { registry with store := failed.store } := by
  rcases hp : (registry.file record).persist with ⟨e | ⟨⟩, next⟩
  · cases (insert_of_error hp).symm.trans h
    exact ⟨next, rfl, rfl⟩
  · cases (insert_of_ok hp).symm.trans h

theorem lookup_insert_eq_ok (h : registry.insert record = (.ok (), registry')) (id : String) :
    registry'.lookup id = if record.databaseId = id then some record else registry.lookup id := by
  rw [lookup_of_persist (insert_eq_ok h), lookup_file]

theorem lookup_insert_eq_error (h : registry.insert record = (.error e, registry')) (id : String) :
    registry'.lookup id = registry.lookup id := by
  obtain ⟨failed, -, rfl⟩ := insert_eq_error h
  rfl

/-! ## Removing a record -/

theorem evict_of_lookup_eq_none (hl : registry.lookup databaseId = none) :
    registry.evict databaseId = (.ok false, registry) := by
  unfold evict
  split
  · rfl
  · rename_i hsome
    cases hl.symm.trans hsome

theorem evict_of_ok (hl : registry.lookup databaseId = some record)
    (h : (registry.drop databaseId).persist = (.ok (), saved)) :
    registry.evict databaseId = (.ok true, saved) := by
  unfold evict
  split
  · rename_i hnone
    cases hl.symm.trans hnone
  · rw [h]

/-- A record that the store does not let go is put back. -/
theorem evict_of_error (hl : registry.lookup databaseId = some record)
    (h : (registry.drop databaseId).persist = (.error e, failed)) :
    registry.evict databaseId = (.error e, { registry with store := failed.store }) := by
  have heq (id : String) (hne : databaseId ≠ id) : failed.lookup id = registry.lookup id := by
    rw [lookup_of_persist h, lookup_drop, if_neg hne]
  unfold evict
  split
  · rename_i hnone
    cases hl.symm.trans hnone
  · rename_i previous hprevious
    rw [h]
    simp only [put_of_changed _ hprevious heq]

theorem evict_eq_ok {found : Bool} (h : registry.evict databaseId = (.ok found, saved)) :
    registry.lookup databaseId = none ∧ saved = registry ∨
      (registry.drop databaseId).persist = (.ok (), saved) := by
  rcases hl : registry.lookup databaseId with _ | record
  · cases (evict_of_lookup_eq_none hl).symm.trans h
    exact .inl ⟨rfl, rfl⟩
  · rcases hp : (registry.drop databaseId).persist with ⟨e | ⟨⟩, next⟩
    · cases (evict_of_error hl hp).symm.trans h
    · cases (evict_of_ok hl hp).symm.trans h
      exact .inr rfl

theorem evict_eq_error (h : registry.evict databaseId = (.error e, registry')) :
    ∃ failed, (registry.drop databaseId).persist = (.error e, failed) ∧
      registry' = { registry with store := failed.store } := by
  rcases hl : registry.lookup databaseId with _ | record
  · cases (evict_of_lookup_eq_none hl).symm.trans h
  · rcases hp : (registry.drop databaseId).persist with ⟨e | ⟨⟩, next⟩
    · cases (evict_of_error hl hp).symm.trans h
      exact ⟨next, rfl, rfl⟩
    · cases (evict_of_ok hl hp).symm.trans h

theorem lookup_evict_eq_ok {found : Bool} (h : registry.evict databaseId = (.ok found, registry'))
    (id : String) : registry'.lookup id = if databaseId = id then none else registry.lookup id := by
  rcases evict_eq_ok h with ⟨hnone, rfl⟩ | hp
  · split
    · rename_i hid
      exact hid ▸ hnone
    · rfl
  · rw [lookup_of_persist hp, lookup_drop]

theorem lookup_evict_eq_error (h : registry.evict databaseId = (.error e, registry')) (id : String) :
    registry'.lookup id = registry.lookup id := by
  obtain ⟨failed, -, rfl⟩ := evict_eq_error h
  rfl

/-! ## Either way -/

/-- Filing a record shows it, or changes nothing of what is shown. -/
theorem lookup_insert (record : Association) (registry : Registry σ) (id : String) :
    (registry.insert record).2.lookup id = registry.lookup id ∨
      (registry.insert record).2.lookup id = some record := by
  rcases h : registry.insert record with ⟨e | ⟨⟩, registry'⟩
  · exact .inl (lookup_insert_eq_error h id)
  · have hl := lookup_insert_eq_ok h id
    split at hl
    · exact .inr hl
    · exact .inl hl

/-- Removing a record hides it, or changes nothing of what is shown. -/
theorem lookup_evict (databaseId : String) (registry : Registry σ) (id : String) :
    (registry.evict databaseId).2.lookup id = registry.lookup id ∨
      databaseId = id ∧ (registry.evict databaseId).2.lookup id = none := by
  rcases h : registry.evict databaseId with ⟨e | found, registry'⟩
  · exact .inl (lookup_evict_eq_error h id)
  · have hl := lookup_evict_eq_ok h id
    split at hl
    · exact .inr ⟨‹_›, hl⟩
    · exact .inl hl

end VaultLink.Registry
