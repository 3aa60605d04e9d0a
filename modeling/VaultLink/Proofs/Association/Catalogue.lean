import Mathlib.Data.List.Induction
import VaultLink.Proofs.Association.Filing
import VaultLink.Proofs.Association.Stores
import VaultLink.Proofs.Text.Base64

/-!
# A registry and its store stay in step

A registry stands for the record of each database (`Catalogue`). Whatever row of changes is asked of it
and whichever of its saves fail, it shows the catalogue to which the changes that were done lead, and
opening a registry on its store gives the same one (`InStep`, `inStep_askAll`).
-/

namespace VaultLink

open AssociationStore (load save)

/-! ## The stored form -/

/-- A record is kept with every byte of its secret. -/
theorem Association.ofStored_toStored (a : Association) : ofStored a.toStored = .ok a := by
  have hbytes : FixedBytes.ofBytes? 32 a.idKey.secret.bytes = some a.idKey.secret :=
    FixedBytes.ofBytes?_eq_some_iff.2 rfl
  have hkey : KeyPair.ofSecretBase64 a.toStored.idKey = .ok a.idKey := by
    rw [KeyPair.ofSecretBase64, toStored, KeyPair.secretBase64, Base64.decode_encode]
    simp only [hbytes, ← KeyPair.eq_ofSecret]
  rw [ofStored, hkey]
  rfl

theorem Association.mapM_ofStored_toStored (records : List Association) :
    (records.map toStored).mapM ofStored = .ok records := by
  induction records with
  | nil => rfl
  | cons record rest ih =>
    rw [List.map_cons, List.mapM_cons, ofStored_toStored, ih]
    rfl

/-! ## Catalogues -/

/-- The record of each database. -/
abbrev Catalogue := String → Option Association

/-- The records of a catalogue, in the order of their databases. -/
structure Catalogue.Lists (catalogue : Catalogue) (records : List Association) : Prop where
  ordered : records.Pairwise fun a b => a.databaseId < b.databaseId
  mem_iff : ∀ record, record ∈ records ↔ catalogue record.databaseId = some record

/-- A call that changes a registry. -/
inductive Change where
  | insert (record : Association)
  | evict (databaseId : String)

namespace Change

/-- The catalogue after a change. -/
def revise : Change → Catalogue → Catalogue
  | insert record, catalogue => fun id => if record.databaseId = id then some record else catalogue id
  | evict databaseId, catalogue => fun id => if databaseId = id then none else catalogue id

/-- There is nothing to change. -/
def Vain : Change → Catalogue → Prop
  | insert _, _ => False
  | evict databaseId, catalogue => catalogue databaseId = none

/-- The catalogue to which a row of changes leads from an empty one. -/
def catalogue (changes : List Change) : Catalogue :=
  changes.foldl (fun catalogue change => change.revise catalogue) fun _ => none

theorem catalogue_snoc (changes : List Change) (change : Change) :
    catalogue (changes ++ [change]) = change.revise (catalogue changes) := List.foldl_append

end Change

/-- An index lists what is found in it. -/
theorem Association.Index.Sound.lists_values {index : Index} (h : index.Sound) :
    Catalogue.Lists (index.get? ·) index.values where
  ordered := List.pairwise_map.2 (h.ordered.imp_of_mem fun ha hb hlt => by
    rwa [h.filed _ ha, h.filed _ hb])
  mem_iff record := by
    rw [Table.get?_eq_some_iff h.ordered.nodup]
    constructor
    · intro hmem
      obtain ⟨entry, hentry, rfl⟩ := List.mem_map.1 hmem
      rwa [h.filed entry hentry]
    · exact fun hmem => List.mem_map.2 ⟨_, hmem, rfl⟩

namespace Registry

variable {σ : Type} {opened : List Association}

/-- The registry after records were filed in it one after the other. -/
def fileAll (opened : List Association) (registry : Registry σ) : Registry σ :=
  opened.foldl (fun registry record => registry.file record) registry

theorem store_fileAll (opened : List Association) (registry : Registry σ) :
    (fileAll opened registry).store = registry.store := by
  induction opened generalizing registry with
  | nil => rfl
  | cons record opened ih => exact ih (registry.file record)

theorem records_fileAll (opened : List Association) (registry : Registry σ) :
    (fileAll opened registry).records = (opened.map fun record => (record.databaseId, record)).foldl
      (fun acc entry => Table.insert entry.1 entry.2 acc) registry.records := by
  induction opened generalizing registry with
  | nil => rfl
  | cons record opened ih => exact ih (registry.file record)

/-- The records of a registry, filed one after the other, are the records of this registry. -/
theorem fileAll_values (registry : Registry σ) (store : σ) :
    fileAll registry.records.values ⟨[], store⟩ = { registry with store } := by
  have hentries : (registry.records.values.map fun record => (record.databaseId, record)) =
      registry.records := by
    refine List.map_map.trans ((List.map_congr_left fun entry hentry => ?_).trans (List.map_id _))
    exact Prod.ext (registry.sound.filed entry hentry) rfl
  refine eq_of_records_eq ?_ (store_fileAll _ _)
  rw [records_fileAll, hentries]
  exact Table.foldl_insert_of_ordered registry.sound.ordered

/-- Of several records of one database, the last one is found. -/
theorem lookup_fileAll (opened : List Association) (store : σ) :
    (fileAll opened ⟨[], store⟩).lookup = Change.catalogue (opened.map .insert) := by
  induction opened using List.reverseRecOn with
  | nil => rfl
  | append_singleton opened record ih =>
    rw [List.map_append, List.map_singleton, Change.catalogue_snoc, ← ih, fileAll, List.foldl_append]
    funext id
    exact lookup_file record id _

variable [AssociationStore σ] {registry registry' : Registry σ} {store store' : σ}
  {catalogue : Catalogue} {change : Change} {e : Error}

/-! ## Opening -/

theorem ofStore_eq_ok_iff :
    ofStore store = .ok registry ↔ ∃ stored opened, load store = .ok stored ∧
      stored.mapM Association.ofStored = .ok opened ∧ registry = fileAll opened ⟨[], store⟩ := by
  unfold ofStore
  rcases load store with e | stored
  · simp [bind, Except.bind]
  · simp only [bind, Except.bind, Except.ok.injEq, exists_and_left, exists_eq_left']
    rcases stored.mapM Association.ofStored with e | opened
    · simp
    · simp [pure, Except.pure, eq_comm, fileAll]

/-- Opening reads the store and does not change it. -/
theorem store_of_ofStore (h : ofStore store = .ok registry) : registry.store = store := by
  obtain ⟨-, opened, -, -, rfl⟩ := ofStore_eq_ok_iff.1 h
  exact store_fileAll opened ⟨[], store⟩

/-- Stores that hold the same list open as the same records. -/
theorem ofStore_congr (h : ofStore store = .ok registry) (hl : load store' = load store) :
    ofStore store' = .ok { registry with store := store' } := by
  obtain ⟨stored, opened, hload, hopened, rfl⟩ := ofStore_eq_ok_iff.1 h
  refine ofStore_eq_ok_iff.2 ⟨stored, opened, hl.trans hload, hopened, ?_⟩
  refine eq_of_records_eq ?_ (store_fileAll opened ⟨[], store'⟩).symm
  show (fileAll opened ⟨[], store⟩).records = _
  rw [records_fileAll, records_fileAll]

/-- A store that holds the records of a registry opens as this registry. -/
theorem ofStore_of_load (hl : load store = .ok (registry.records.map Association.toStored)) :
    ofStore store = .ok { registry with store } :=
  ofStore_eq_ok_iff.2 ⟨_, registry.records.values, hl,
    Association.mapM_ofStored_toStored registry.records.values, (fileAll_values registry store).symm⟩

/-! ## Changes -/

/-- A call of a change: whether there was something to change. -/
def ask : Change → Registry σ → Except Error Bool × Registry σ
  | .insert record, registry =>
    match registry.insert record with
    | (.ok (), registry) => (.ok true, registry)
    | (.error e, registry) => (.error e, registry)
  | .evict databaseId, registry => registry.evict databaseId

/-- What becomes of a call. If there is something to change, the store gets the records of the new
catalogue; if it does not take them, the call fails as the store did and the records are as before. -/
structure Answers (change : Change) (catalogue : Catalogue) (registry : Registry σ) : Prop where
  vain : change.Vain catalogue → ask change registry = (.ok false, registry)
  saves : ¬ change.Vain catalogue → ∃ changed : Registry σ,
    (change.revise catalogue).Lists changed.records.values ∧
    ask change registry =
      match save (changed.records.map Association.toStored) registry.store with
      | (.ok (), store) => (.ok true, { changed with store })
      | (.error e, store) => (.error e, { registry with store })

theorem answers_lookup (registry : Registry σ) (change : Change) :
    Answers change registry.lookup registry := by
  cases change with
  | insert record =>
    let changed := registry.file record
    have hlookup : changed.lookup = (Change.insert record).revise registry.lookup :=
      funext fun id => lookup_file record id _
    refine ⟨False.elim, fun _ => ⟨changed, hlookup ▸ changed.sound.lists_values, ?_⟩⟩
    rcases hs : save (changed.records.map Association.toStored) registry.store with ⟨e | ⟨⟩, store⟩
    · simp only [ask, insert_of_error (persist_of_save hs)]
    · simp only [ask, insert_of_ok (persist_of_save hs)]
      rfl
  | evict databaseId =>
    let changed := registry.drop databaseId
    have hlookup : changed.lookup = (Change.evict databaseId).revise registry.lookup :=
      funext fun id => lookup_drop databaseId id
    refine ⟨fun hnone => evict_of_lookup_eq_none hnone, fun hsome =>
      ⟨changed, hlookup ▸ changed.sound.lists_values, ?_⟩⟩
    obtain ⟨record, hl⟩ := Option.ne_none_iff_exists'.1 hsome
    rcases hs : save (changed.records.map Association.toStored) registry.store with ⟨e | ⟨⟩, store⟩
    · exact evict_of_error hl (persist_of_save hs)
    · exact evict_of_ok hl (persist_of_save hs)

/-- A registry shows a catalogue, every record under its own database, and so does a registry that is
opened on its store. -/
structure InStep (catalogue : Catalogue) (registry : Registry σ) : Prop where
  lookup_eq : registry.lookup = catalogue
  lists_records : catalogue.Lists registry.records.values
  exportKeys_eq : registry.exportKeys = registry.records.map Association.connectionKey
  databaseId_eq : ∀ id record, catalogue id = some record → record.databaseId = id
  ofStore_eq : ofStore registry.store = .ok registry

theorem inStep_of_ofStore (h : ofStore registry.store = .ok registry) :
    InStep registry.lookup registry where
  lookup_eq := rfl
  lists_records := registry.sound.lists_values
  exportKeys_eq := rfl
  databaseId_eq _ _ := databaseId_of_lookup
  ofStore_eq := h

theorem InStep.answers (h : InStep catalogue registry) (change : Change) :
    Answers change catalogue registry :=
  h.lookup_eq ▸ answers_lookup registry change

theorem lookup_ask_eq_ok {found : Bool} (h : ask change registry = (.ok found, registry')) :
    registry'.lookup = change.revise registry.lookup := by
  cases change with
  | insert record =>
    rcases hi : registry.insert record with ⟨e | ⟨⟩, next⟩ <;> simp only [ask, hi] at h <;> cases h
    exact funext (lookup_insert_eq_ok hi)
  | evict databaseId => exact funext (lookup_evict_eq_ok h)

theorem lookup_ask_eq_error (h : ask change registry = (.error e, registry')) :
    registry'.lookup = registry.lookup := by
  cases change with
  | insert record =>
    rcases hi : registry.insert record with ⟨e | ⟨⟩, next⟩ <;> simp only [ask, hi] at h <;> cases h
    exact funext (lookup_insert_eq_error hi)
  | evict databaseId => exact funext (lookup_evict_eq_error h)

variable [DurableStore σ]

/-- Whatever becomes of a call, the store opens as the registry. -/
theorem ofStore_ask (h : ofStore registry.store = .ok registry) (change : Change) :
    ofStore (ask change registry).2.store = .ok (ask change registry).2 := by
  have hanswers := answers_lookup registry change
  by_cases hv : change.Vain registry.lookup
  · rw [hanswers.vain hv]
    exact h
  · obtain ⟨changed, -, hask⟩ := hanswers.saves hv
    rw [hask]
    rcases hs : save (changed.records.map Association.toStored) registry.store with ⟨e | ⟨⟩, store⟩
    · exact ofStore_congr h (SteadyStore.load_of_save_eq_error hs)
    · have hload := DurableStore.load_of_save_eq_ok hs
      exact ofStore_of_load hload

/-! ## Rows of calls -/

/-- The registry after a row of calls. -/
def askAll (changes : List Change) (registry : Registry σ) : Registry σ :=
  changes.foldl (fun registry change => (ask change registry).2) registry

/-- The calls of a row that did not fail. -/
def accepted : List Change → Registry σ → List Change
  | [], _ => []
  | change :: changes, registry =>
    match ask change registry with
    | (.ok _, registry) => change :: accepted changes registry
    | (.error _, registry) => accepted changes registry

theorem inStep_askAll_of_inStep (h : InStep catalogue registry) (changes : List Change) :
    InStep ((accepted changes registry).foldl (fun catalogue change => change.revise catalogue)
      catalogue) (askAll changes registry) := by
  induction changes generalizing catalogue registry with
  | nil => exact h
  | cons change changes ih =>
    have hnext := inStep_of_ofStore (ofStore_ask h.ofStore_eq change)
    rcases ha : ask change registry with ⟨e | found, next⟩ <;> rw [ha] at hnext <;>
      simp only [accepted, askAll, List.foldl_cons, ha]
    · rw [lookup_ask_eq_error ha, h.lookup_eq] at hnext
      exact ih hnext
    · rw [lookup_ask_eq_ok ha, h.lookup_eq] at hnext
      exact ih hnext

/-- Whatever a registry was opened on and whichever calls fail, it is in step with its store: it shows
what was opened, with the calls that did not fail, and answers every further call by that. -/
theorem inStep_askAll (h : ofStore store = .ok registry) :
    ∃ stored opened, load store = .ok stored ∧ stored.mapM Association.ofStored = .ok opened ∧
      ∀ changes, InStep (Change.catalogue (opened.map .insert ++ accepted changes registry))
          (askAll changes registry) ∧
        ∀ change, Answers change
          (Change.catalogue (opened.map .insert ++ accepted changes registry))
          (askAll changes registry) := by
  obtain ⟨stored, opened, hload, hopened, hregistry⟩ := ofStore_eq_ok_iff.1 h
  refine ⟨stored, opened, hload, hopened, fun changes => ?_⟩
  have hlookup : registry.lookup = Change.catalogue (opened.map .insert) := by
    rw [hregistry]
    exact lookup_fileAll opened store
  have hopen : InStep registry.lookup registry :=
    inStep_of_ofStore (h ▸ congrArg ofStore (store_of_ofStore h))
  have hstep := inStep_askAll_of_inStep hopen changes
  rw [hlookup, Change.catalogue, ← List.foldl_append] at hstep
  exact ⟨hstep, hstep.answers⟩

/-- Of two records of one database the second is opened. It stays when the store does not let it go, and
another one takes its place when the store takes that. -/
theorem inStep_askAll_fickle :
    ∃ (store : FickleStore) (registry : Registry FickleStore) (first second third : Association),
      first ≠ second ∧ ofStore store = .ok registry ∧ registry.records = [("database", second)] ∧
        accepted [.evict "database", .insert third] registry = [.insert third] ∧
        InStep (Change.catalogue [.insert first, .insert second, .insert third])
          (askAll [.evict "database", .insert third] registry) := by
  obtain ⟨key⟩ : Nonempty KeyPair := ⟨.ofSecret (.ofNatLE 32 1)⟩
  let first : Association := ⟨"database", "first", key⟩
  let second : Association := ⟨"database", "second", key⟩
  let third : Association := ⟨"database", "third", key⟩
  let store : FickleStore := ⟨[first, second].map Association.toStored, [some (.told "full"), none]⟩
  let registry : Registry FickleStore := fileAll [first, second] ⟨[], store⟩
  have hopen : ofStore store = .ok registry :=
    ofStore_eq_ok_iff.2 ⟨_, _, rfl, Association.mapM_ofStored_toStored [first, second], rfl⟩
  have haccepted : accepted [.evict "database", .insert third] registry = [.insert third] := rfl
  obtain ⟨stored, opened, hload, hopened, hsteps⟩ := inStep_askAll hopen
  cases hload
  cases (Association.mapM_ofStored_toStored [first, second]).symm.trans hopened
  refine ⟨store, registry, first, second, third, by simp [first, second], hopen, rfl, haccepted, ?_⟩
  have hstep := (hsteps [.evict "database", .insert third]).1
  rw [haccepted] at hstep
  exact hstep

end Registry

end VaultLink
