import VaultLink.Proofs.Association.Stores
import VaultLink.Proofs.Association.Written
import VaultLink.Proofs.Files.Actions

/-!
# Replacing a store's file

A file store saves a list in steps: it makes the directory, writes a draft beside the file, and puts the
draft in the place of the file (`FileStore.stages`). If all of them succeed, the list is what is loaded
next; if one fails, the fault is told and what is loaded next is what would have been loaded before
(`FileStore.load_save`). Directories that were made stay, though. This shows in what is loaded where one of
them was missing and the path has a name that is too long for a file: before there was no file, and now
there can be none.
-/

namespace VaultLink

open FilePath (HasLongName IsName fileName? isIdle parent? place split steps trim)
open FileSystem (Grows IsTree checkName)
open Steps

/-! ## The place of the draft -/

/-- A draft beside a path: it leads to another place in the same directory. -/
structure FilePath.Beside (path draft : String) : Prop where
  up : ".." ∉ steps draft
  ne : place path ≠ place draft
  length_eq : (place path).length = (place draft).length
  /-- The directories that are made for it are above it. -/
  above : ∀ directory ∈ FilePath.ancestors ((parent? path).getD ""),
    ".." ∉ steps directory ∧ (place directory).length < (place draft).length

theorem FilePath.ne_append_tmp {name part : String} (h : part.length < 4) : part ≠ name ++ ".tmp" := by
  rintro rfl
  rw [String.length_append] at h
  exact absurd h (Nat.not_lt.2 (Nat.le_add_left 4 _))

theorem FilePath.isName_append_tmp {name : String} (h : IsName name) : IsName (name ++ ".tmp") := by
  rw [IsName, String.toList_append, List.mem_append, not_or]
  exact ⟨h, by decide⟩

namespace FileStore

open FileAction

variable {path : String} {content : Bytes} {records : List StoredAssociation} {fs fs' base : FileSystem}
  {name : String} {fault : FileFault} {store store' : FileStore} {result : Except Error Unit}

theorem beside_draft (hname : (fileName? path).isSome) (hup : ".." ∉ steps path) :
    FilePath.Beside path (draft path) := by
  obtain ⟨name, hname⟩ := Option.isSome_iff_exists.1 hname
  obtain ⟨_, -, -, -, hn, -⟩ := FilePath.exists_parent_of_fileName? hname
  have hidle : isIdle (name ++ ".tmp") = false := by
    simp [isIdle, (FilePath.ne_append_tmp (by decide : ".".length < 4)).symm]
  obtain ⟨above, hparent, hplace, hplace', hsteps', hsteps⟩ :=
    FilePath.place_withFileName hname (FilePath.isName_append_tmp hn) hidle
  have hdraft : draft path = FilePath.withFileName path (name ++ ".tmp") := by
    rw [draft, hname]
    rfl
  have habove : ".." ∉ steps above := fun hmem => hup (hsteps ▸ List.mem_append_left _ hmem)
  rw [hdraft]
  refine ⟨?_, ?_, ?_, fun directory hd => ?_⟩
  · rw [hsteps', List.mem_append, not_or, List.mem_singleton]
    exact ⟨habove, FilePath.ne_append_tmp (by decide)⟩
  · rw [hplace, hplace']
    intro heq
    have hlength := congrArg String.length (List.singleton_inj.1 (List.append_cancel_left heq))
    rw [String.length_append] at hlength
    exact absurd hlength (Nat.ne_of_lt (Nat.lt_add_of_pos_right (by decide)))
  · rw [hplace, hplace', List.length_append, List.length_append]
    rfl
  · rw [hparent, Option.getD_some] at hd
    refine ⟨FilePath.up_notMem_of_mem_ancestors hd habove, ?_⟩
    have hle := (FilePath.place_prefix_of_mem_ancestors hd).length_le
    rw [hplace', List.length_append]
    exact Nat.lt_succ_of_le hle

/-! ## The steps of saving -/

/-- Writing the draft and putting it in the place of the file. -/
def writing (path : String) (content : Bytes) : FileAction Unit := do
  create (draft path) 0o600
  write (draft path) content
  sync
  rename (draft path) path

/-- The steps of saving, without what is done when one of them fails. -/
def stages (path : String) (records : List StoredAssociation) : FileAction Unit := do
  makeDirectories ((parent? path).getD "")
  writing path (StoredAssociation.encodeList records)

theorem replace_of_ok (h : writing path content fs = .ok () fs') : replace path content fs = .ok () fs' :=
  tryCatch_of_ok h _

/-- A draft that is in the way is removed, and that is all. -/
theorem replace_of_error (h : writing path content fs = .error fault fs') :
    ∃ fs'', remove (draft path) fs' = .ok () fs'' ∧ replace path content fs = .error fault fs'' := by
  obtain ⟨fs'', hr⟩ : ∃ fs'', remove (draft path) fs' = .ok () fs'' := ⟨_, rfl⟩
  exact ⟨fs'', hr, (tryCatch_of_error h _).trans (bind_of_ok hr _)⟩

/-- Saving succeeds if its steps do, and else it tells the fault of the one that failed. -/
theorem save_cases (records : List StoredAssociation) (store : FileStore) :
    (∃ fs', stages store.path records store.fs = .ok () fs' ∧
      save records store = (.ok (), { store with fs := fs' })) ∨
    ∃ fault fs' fs'' about, stages store.path records store.fs = .error fault fs' ∧
      (fs'' = fs' ∨ remove (draft store.path) fs' = .ok () fs'') ∧
      save records store = (.error (.store (.system about fault.message)), { store with fs := fs'' }) := by
  obtain ⟨at_, base⟩ := store
  dsimp only
  unfold save onFiles stages
  dsimp only
  rcases hm : makeDirectories ((parent? at_).getD "") base with ⟨⟨⟩, fs⟩ | ⟨fault, fs⟩
  · rw [bind_of_ok hm]
    dsimp only
    rcases hw : writing at_ (StoredAssociation.encodeList records) fs with ⟨⟨⟩, fs'⟩ | ⟨fault, fs'⟩
    · rw [replace_of_ok hw]
      exact .inl ⟨fs', rfl, rfl⟩
    · obtain ⟨fs'', hr, hw'⟩ := replace_of_error hw
      rw [hw']
      exact .inr ⟨fault, fs', fs'', at_, rfl, .inr hr, rfl⟩
  · rw [bind_of_error hm]
    exact .inr ⟨fault, fs, fs, _, rfl, .inl rfl, rfl⟩

/-! ## What saving keeps -/

theorem keeps_isTree_stages (path : String) (records : List StoredAssociation) :
    (stages path records).Keeps IsTree := by
  unfold stages writing
  refine keeps_bind (keeps_makeDirectories fun _ _ => keeps_isTree_makeDirectory _) fun _ => ?_
  refine keeps_bind (keeps_isTree_create _ _) fun _ => ?_
  refine keeps_bind (keeps_isTree_write _ _) fun _ => ?_
  exact keeps_bind keeps_sync fun _ => keeps_isTree_rename _ _

/-- A tree stays a tree, whether saving succeeds or fails. -/
theorem isTree_save (records : List StoredAssociation) (ht : store.fs.IsTree) :
    (save records store).2.fs.IsTree := by
  rcases save_cases records store with ⟨fs', hs, h⟩ | ⟨fault, fs', fs'', about, hs, hr, h⟩
  · rw [h]
    exact (keeps_isTree_stages _ _).of_ok ht hs
  · rw [h]
    have hfs' := (keeps_isTree_stages _ _).of_error ht hs
    rcases hr with rfl | hr
    · exact hfs'
    · exact (keeps_isTree_remove _).of_ok hfs' hr

/-- Until the draft takes the place of the file, the tree grows. -/
theorem keepsFailing_stages (hb : FilePath.Beside path (draft path))
    (records : List StoredAssociation) :
    (stages path records).KeepsFailing (base.Grows (place (draft path))) := by
  unfold stages writing
  refine keepsFailing_bind (keeps_makeDirectories fun directory hd => ?_) fun _ => ?_
  · exact keeps_grows_makeDirectory (hb.above directory hd).1 (hb.above directory hd).2
  refine keepsFailing_bind (keeps_grows_create hb.up _) fun _ => ?_
  refine keepsFailing_bind (keeps_grows_write hb.up _) fun _ => ?_
  exact keepsFailing_bind keeps_sync fun _ => keepsFailing_rename _ _

/-- A save that fails leaves a tree that has grown. -/
theorem grows_of_save_eq_error (hb : FilePath.Beside store.path (draft store.path)) {e : Error}
    (h : save records store = (.error e, store')) :
    store.fs.Grows (place (draft store.path)) store'.fs := by
  rcases save_cases records store with ⟨_, -, hs⟩ | ⟨fault, fs', fs'', about, hs, hr, hsave⟩
  · cases h.symm.trans hs
  cases h.symm.trans hsave
  have hfs' := keepsFailing_stages hb records (.refl _ _) hs
  rcases hr with rfl | hr
  · exact hfs'
  · exact (keeps_grows_remove hb.up).of_ok hfs' hr

/-! ## What is loaded afterwards -/

/-- If all steps succeed, the file has the new content. -/
theorem read_of_stages (h : stages path records fs = .ok () fs') :
    fs'.read path = .ok (StoredAssociation.encodeList records) := by
  obtain ⟨_, fs₁, -, h⟩ := Steps.bind_eq_ok h
  obtain ⟨_, fs₂, -, h⟩ := Steps.bind_eq_ok h
  obtain ⟨_, fs₃, hw, h⟩ := Steps.bind_eq_ok h
  obtain ⟨_, fs₄, hs, h⟩ := Steps.bind_eq_ok h
  rcases sync_cases fs₃ with ⟨fault, hs'⟩ | hs' <;> cases hs.symm.trans hs'
  exact read_of_rename h (read_of_write hw)

theorem path_save (records : List StoredAssociation) (store : FileStore) :
    (save records store).2.path = store.path := by
  rcases save_cases records store with ⟨_, -, h⟩ | ⟨_, _, _, _, -, -, h⟩ <;> rw [h]

theorem load_of_read (h : store.fs.read store.path = .ok (StoredAssociation.encodeList records)) :
    load store = .ok records := by
  rw [load, h]
  dsimp only
  rw [StoredAssociation.decodeList_encodeList]

/-- What is loaded depends on nothing but what is read from the file. -/
theorem load_congr (hp : store'.path = store.path)
    (h : store'.fs.read store.path = store.fs.read store.path) : load store' = load store := by
  rw [load, load, hp, h]

/-- A list that was saved is loaded as it was. If a step of saving fails, saving tells its fault, and what
is loaded is what was loaded before; only where a directory of the path was missing, and with it the file,
a name that no file can have may show now. -/
theorem load_save (hname : (fileName? store.path).isSome) (hup : ".." ∉ split store.path)
    (ht : store.fs.IsTree) (h : save records store = (result, store')) :
    (result = .ok () → load store' = .ok records) ∧
      ∀ fault fs', stages store.path records store.fs = .error fault fs' →
        (∃ about, result = .error (.store (.system about fault.message))) ∧
        (load store' = load store ∨
          load store = .ok [] ∧
            load store' = .error (.store (.system store.path FileFault.nameTooLong.message)) ∧
            HasLongName store.path) := by
  have hup' : ".." ∉ steps store.path := (not_congr FilePath.up_mem_steps_iff).2 hup
  have hpath : store'.path = store.path := by
    have := path_save records store
    rwa [h] at this
  have ht' : store'.fs.IsTree := by
    have := isTree_save records ht
    rwa [h] at this
  rcases save_cases records store with ⟨fs', hs, hsave⟩ | ⟨fault, fs', fs'', about, hs, -, hsave⟩
  · cases h.symm.trans hsave
    exact ⟨fun _ => load_of_read (read_of_stages hs), fun fault fs₁ hs' => by cases hs.symm.trans hs'⟩
  · obtain ⟨rfl, -⟩ := Prod.mk.inj (h.symm.trans hsave)
    refine ⟨nofun, fun fault' fs₁ hs' => ?_⟩
    cases hs.symm.trans hs'
    refine ⟨⟨about, rfl⟩, ?_⟩
    have hb := beside_draft hname hup'
    rcases (grows_of_save_eq_error hb h).read_eq_or ht ht' hup' hb.ne hb.length_eq with
      hsame | ⟨hmissing, hlong, hname⟩
    · exact .inl (load_congr hpath hsame)
    · refine .inr ⟨?_, ?_, hname⟩
      · rw [load, hmissing]
      · rw [load, hpath, hlong]

/-- A tree that refuses to move files. -/
def immovable : FileSystem where
  nodes := []
  refusal
    | .rename, _ => some .busy
    | _, _ => none

/-- In an empty tree a list is saved; where no file can be moved, what is loaded stays the same. -/
theorem load_save_new :
    load (save [⟨"d", "n", "k"⟩] ⟨"a/kp.json", { nodes := [] }⟩).2 = .ok [⟨"d", "n", "k"⟩] ∧
      load (save [⟨"d", "n", "k"⟩] ⟨"a/kp.json", immovable⟩).2 = load ⟨"a/kp.json", immovable⟩ := by
  have hname : (fileName? "a/kp.json").isSome := by decide
  have hup : ".." ∉ split "a/kp.json" := by decide
  constructor
  · have hok : (save [⟨"d", "n", "k"⟩] ⟨"a/kp.json", { nodes := [] }⟩).1.isOk = true := by decide +kernel
    rcases h : save [⟨"d", "n", "k"⟩] ⟨"a/kp.json", { nodes := [] }⟩ with ⟨_ | ⟨⟩, store'⟩ <;> rw [h] at hok
    · cases hok
    · exact (@load_save _ ⟨"a/kp.json", { nodes := [] }⟩ _ _ hname hup
        (FileSystem.isTree_of_nodes_eq_nil rfl) h).1 rfl
  · have hfails : (stages "a/kp.json" [⟨"d", "n", "k"⟩] immovable matches .error .busy _) = true := by
      decide +kernel
    rcases h : save [⟨"d", "n", "k"⟩] ⟨"a/kp.json", immovable⟩ with ⟨result, store'⟩
    rcases hs : stages "a/kp.json" [⟨"d", "n", "k"⟩] immovable with ⟨_, fs'⟩ | ⟨fault, fs'⟩ <;>
      rw [hs] at hfails
    · cases hfails
    · obtain ⟨-, hsame | ⟨-, -, hlong⟩⟩ :=
        (@load_save _ ⟨"a/kp.json", immovable⟩ _ _ hname hup
          (FileSystem.isTree_of_nodes_eq_nil rfl) h).2 fault fs' hs
      · exact hsame
      · exact absurd hlong (by decide)

/-! ## A name that is too long -/

/-- A name that is too long for a file. -/
structure Overlong (name : String) : Prop where
  isName : IsName name
  nul : Char.ofNat 0 ∉ name.toList
  long : Route.nameCapacity < name.utf8ByteSize

namespace Overlong

theorem ne (h : Overlong name) (short : String) (hs : short.utf8ByteSize ≤ Route.nameCapacity) :
    name ≠ short := by
  rintro rfl
  exact absurd h.long (Nat.not_lt.2 hs)

theorem isIdle (h : Overlong name) : FilePath.isIdle name = false := by
  simp [FilePath.isIdle, h.ne "" (by decide), h.ne "." (by decide)]

theorem append_tmp (h : Overlong name) : Overlong (name ++ ".tmp") where
  isName := FilePath.isName_append_tmp h.isName
  nul := by
    rw [String.toList_append, List.mem_append, not_or]
    exact ⟨h.nul, by decide⟩
  long := by
    rw [String.utf8ByteSize_append]
    exact Nat.lt_add_right _ h.long

theorem split_eq (h : Overlong name) : split ("a/" ++ name) = ["a", name] := by
  have := FilePath.split_append "a" name
  rwa [FilePath.split_of_isName h.isName] at this

theorem ofPath_eq (h : Overlong name) : Route.ofPath ("a/" ++ name) =
    if Route.capacity ≤ ("a/" ++ name).utf8ByteSize then .error .nameTooLong
    else .ok ⟨[], ["a"], name, false⟩ := by
  have hnul : ("a/" ++ name).toList.contains (Char.ofNat 0) = false := by
    simpa using h.nul
  have hstarts : ("a/" ++ name).startsWith "/" = false := by
    rw [← Bool.not_eq_true, FilePath.startsWith_slash_iff]
    simp
  have hne := h.ne "" (by decide)
  rw [Route.ofPath, hnul, if_neg Bool.false_ne_true, if_neg (by simp), h.split_eq,
    FilePath.not_endsWith_slash h.isName hne, hstarts]
  simp [hne]

theorem enter_a (fs : FileSystem) : fs.enter [] ["a"] =
    match fs.node? ["a"] with
    | none => .error .notFound
    | some .directory => .ok ["a"]
    | some _ => .error .notDirectory := by
  rw [FileSystem.enter_cons, FileSystem.step_of_name (by decide) (by decide)]
  show (match fs.node? ["a"] with | none => _ | some .directory => _ | some _ => _) >>= _ = _
  rcases fs.node? ["a"] with _ | ⟨_ | _ | _⟩ <;> rfl

theorem aim_eq (h : Overlong name) (fs : FileSystem) : fs.aim ("a/" ++ name) =
    if Route.capacity ≤ ("a/" ++ name).utf8ByteSize then .error .nameTooLong
    else fs.enter [] ["a"] >>= fun _ => .error .nameTooLong := by
  have hlong : checkName name = .error .nameTooLong := if_pos h.long
  rw [FileSystem.aim, h.ofPath_eq]
  split
  · rfl
  · simp only [bind, Except.bind, hlong]

theorem aim_of_directory (h : Overlong name) (hd : fs.node? ["a"] = some .directory) :
    fs.aim ("a/" ++ name) = .error .nameTooLong := by
  rw [h.aim_eq, enter_a, hd]
  exact ite_self _

theorem trim_eq (h : Overlong name) : trim (split ("a/" ++ name)) = ["a", name] := by
  rw [h.split_eq]
  simp [trim, h.isIdle]

theorem parent?_eq (h : Overlong name) : parent? ("a/" ++ name) = some "a" := by
  rw [parent?, h.trim_eq]
  with_unfolding_all rfl

theorem fileName?_eq (h : Overlong name) : fileName? ("a/" ++ name) = some name := by
  rw [fileName?, h.trim_eq]
  simp [h.isIdle, h.ne ".." (by decide)]

theorem draft_eq (h : Overlong name) : draft ("a/" ++ name) = "a/" ++ (name ++ ".tmp") := by
  rw [draft, FilePath.withFileName, h.fileName?_eq, h.parent?_eq]
  show FilePath.join "a" (name ++ ".tmp") = _
  rw [FilePath.join, FilePath.not_startsWith_slash h.append_tmp.isName, if_neg Bool.false_ne_true,
    if_neg (by decide +kernel), show "a" ++ "/" = "a/" by decide]

/-- What a save leaves in an empty tree: the directory was made, the draft was not. -/
def remains : FileSystem := { nodes := [(["a"], .directory)] }

theorem aim_remains (h : Overlong name) : remains.aim ("a/" ++ name) = .error .nameTooLong :=
  h.aim_of_directory (by decide)

theorem create_draft (h : Overlong name) (mode : Nat) :
    create (draft ("a/" ++ name)) mode remains = .error .nameTooLong remains := by
  have hpermit : permit .create remains = .ok () remains := rfl
  have haim : look (·.aim (draft ("a/" ++ name))) remains = .error .nameTooLong remains := by
    rw [look, h.draft_eq, h.append_tmp.aim_remains]
  rw [create, bind_of_ok hpermit, bind_of_error haim]

theorem remove_draft (h : Overlong name) : remove (draft ("a/" ++ name)) remains = .ok () remains := by
  rw [remove, modify_apply, FileSystem.find, h.draft_eq, h.append_tmp.aim_remains]
  rfl

theorem save_eq (h : Overlong name) (records : List StoredAssociation) :
    save records ⟨"a/" ++ name, { nodes := [] }⟩ =
      (.error (.store (.system ("a/" ++ name) FileFault.nameTooLong.message)),
        ⟨"a/" ++ name, remains⟩) := by
  have hmake : makeDirectories "a" { nodes := [] } = .ok () remains := by with_unfolding_all rfl
  have hreplace (content : Bytes) :
      replace ("a/" ++ name) content remains = .error .nameTooLong remains :=
    (tryCatch_of_error (bind_of_error (h.create_draft _) _) _).trans (bind_of_ok h.remove_draft _)
  simp only [save, onFiles, h.parent?_eq, Option.getD_some, hmake, hreplace]

/-- Where a directory is missing that a name is to be in that is too long, there is no file before a save,
and none can be there after it. -/
theorem load_save_eq (h : Overlong name) (hsize : ("a/" ++ name).utf8ByteSize < Route.capacity)
    (records : List StoredAssociation) :
    load ⟨"a/" ++ name, { nodes := [] }⟩ = .ok [] ∧
      ∃ store', save records ⟨"a/" ++ name, { nodes := [] }⟩ =
          (.error (.store (.system ("a/" ++ name) FileFault.nameTooLong.message)), store') ∧
        load store' = .error (.store (.system ("a/" ++ name) FileFault.nameTooLong.message)) := by
  have hbefore : FileSystem.aim { nodes := [] } ("a/" ++ name) = .error .notFound := by
    rw [h.aim_eq, if_neg (Nat.not_le.2 hsize), enter_a]
    rfl
  have hload : load ⟨"a/" ++ name, { nodes := [] }⟩ = .ok [] := by
    rw [load, FileSystem.read_of_aim_eq_error hbefore]
  have hload' : load ⟨"a/" ++ name, remains⟩ =
      .error (.store (.system ("a/" ++ name) FileFault.nameTooLong.message)) := by
    rw [load, FileSystem.read_of_aim_eq_error h.aim_remains]
  exact ⟨hload, _, h.save_eq records, hload'⟩

theorem utf8ByteSize_replicate (n : Nat) : (String.ofList (List.replicate n 'n')).utf8ByteSize = n := by
  induction n with
  | zero => rfl
  | succ n ih =>
    rw [List.replicate_succ', String.ofList_append, String.utf8ByteSize_append, ih]
    rfl

theorem replicate {n : Nat} (hn : Route.nameCapacity < n) :
    Overlong (String.ofList (List.replicate n 'n')) where
  isName := by
    rw [IsName, String.toList_ofList, List.mem_replicate]
    exact fun h => absurd h.2 (by decide)
  nul := by
    rw [String.toList_ofList, List.mem_replicate]
    exact fun h => absurd h.2 (by decide)
  long := by rwa [utf8ByteSize_replicate]

theorem exists_of_size : ∃ name, Overlong name ∧ ("a/" ++ name).utf8ByteSize < Route.capacity := by
  refine ⟨String.ofList (List.replicate 256 'n'), replicate (by decide), ?_⟩
  rw [String.utf8ByteSize_append, utf8ByteSize_replicate]
  decide

end Overlong

/-- A save that fails can be seen. -/
theorem not_forall_load_save : ¬ ∀ (store store' : FileStore) (records : List StoredAssociation)
    (result : Except Error Unit), (fileName? store.path).isSome → ".." ∉ split store.path →
    store.fs.IsTree → save records store = (result, store') →
    (result = .ok () → load store' = .ok records) ∧
      ∀ e, result = .error e → (∃ cause, e = .store cause) ∧ load store' = load store := by
  intro hall
  obtain ⟨name, hlong, hsize⟩ := Overlong.exists_of_size
  obtain ⟨hbefore, store', hsave, hafter⟩ := hlong.load_save_eq hsize []
  have hup : ".." ∉ split ("a/" ++ name) := by
    rw [hlong.split_eq]
    simp [(hlong.ne ".." (by decide)).symm]
  have hname : (fileName? ("a/" ++ name)).isSome := by
    rw [hlong.fileName?_eq]
    rfl
  obtain ⟨-, hfailed⟩ := hall ⟨"a/" ++ name, { nodes := [] }⟩ store' [] _ hname hup
    (FileSystem.isTree_of_nodes_eq_nil rfl) hsave
  obtain ⟨-, hsame⟩ := hfailed _ rfl
  rw [hbefore, hafter] at hsame
  cases hsame

end FileStore

end VaultLink
