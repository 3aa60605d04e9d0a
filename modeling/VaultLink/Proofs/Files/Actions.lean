import VaultLink.Proofs.Files.Growth

/-!
# What actions do to a tree

What one action can do to a tree is said once for each of them (`makeDirectory_cases`, `create_cases`,
`write_cases`, `sync_cases`, `rename_cases`, `remove_cases`): if it fails, nothing, but for a file that is
half written; else a change where its path leads. From it follows what actions keep, alone or one after
another (`FileAction.Keeps`): that the tree is a tree, and, as long as nothing is moved, that it has only
grown. What was written is read, also under another name (`read_of_write`, `read_of_rename`).
-/

namespace VaultLink

open FilePath (steps)
open Steps

namespace FileAction

variable {α β : Type} {fs fs' : FileSystem} {path source target : String} {content : Bytes}

/-! ## Each action -/

theorem look_of_ok {f : FileSystem → Except FileFault α} {a : α} (h : f fs = .ok a) :
    look f fs = .ok a fs := by
  rw [look, h]

theorem look_of_error {f : FileSystem → Except FileFault α} {fault : FileFault}
    (h : f fs = .error fault) : look f fs = .error fault fs := by
  rw [look, h]

theorem stop_of {c : Prop} [Decidable c] {fault : FileFault} {rest : FileAction α} (h : c) :
    (if c then (throw fault : FileAction PUnit) >>= fun _ => rest else rest) fs = .error fault fs := by
  rw [if_pos h]
  exact bind_of_error (throw_apply fault fs) _

theorem permit_cases (operation : FileOperation) (fs : FileSystem) :
    (∃ fault, permit operation fs = .error fault fs) ∨ permit operation fs = .ok () fs := by
  unfold permit
  rw [bind_of_ok (get_apply fs)]
  rcases fs.refusal operation fs.nodes with _ | fault
  · exact .inr rfl
  · exact .inl ⟨fault, rfl⟩

theorem makeDirectory_cases (path : String) (fs : FileSystem) :
    (∃ fault, makeDirectory path fs = .error fault fs) ∨
      ∃ route place, fs.aim path = .ok (route, place) ∧ route.isDotted = false ∧
        fs.node? place = none ∧ makeDirectory path fs = .ok () (fs.put place .directory) := by
  unfold makeDirectory
  rcases ha : fs.aim path with fault | ⟨route, place⟩
  · exact .inl ⟨fault, bind_of_error (look_of_error ha) _⟩
  rw [bind_of_ok (look_of_ok ha)]
  dsimp only
  rw [bind_of_ok (get_apply fs)]
  by_cases hthere : (route.isDotted || (fs.node? place).isSome) = true
  · exact .inl ⟨_, stop_of hthere⟩
  rw [if_neg hthere]
  rcases permit_cases .makeDirectory fs with ⟨fault, hp⟩ | hp
  · exact .inl ⟨fault, bind_of_error hp _⟩
  · obtain ⟨hdotted, hnone⟩ : route.isDotted = false ∧ fs.node? place = none := by simpa using hthere
    exact .inr ⟨route, place, rfl, hdotted, hnone, bind_of_ok hp _⟩

theorem create_cases (path : String) (mode : Nat) (fs : FileSystem) :
    (∃ fault, create path mode fs = .error fault fs) ∨
      ∃ route place mode', fs.aim path = .ok (route, place) ∧ route.isDotted = false ∧
        fs.node? place ≠ some .directory ∧
          create path mode fs = .ok () (fs.put place (.file [] mode')) := by
  unfold create
  rcases permit_cases .create fs with ⟨fault, hp⟩ | hp
  · exact .inl ⟨fault, bind_of_error hp _⟩
  rw [bind_of_ok hp]
  rcases ha : fs.aim path with fault | ⟨route, place⟩
  · exact .inl ⟨fault, bind_of_error (look_of_error ha) _⟩
  rw [bind_of_ok (look_of_ok ha)]
  dsimp only
  by_cases hdirectory : (route.isDotted || route.slash) = true
  · exact .inl ⟨_, stop_of hdirectory⟩
  obtain ⟨hdotted, -⟩ : route.isDotted = false ∧ route.slash = false := by simpa using hdirectory
  rw [if_neg hdirectory, bind_of_ok (get_apply fs)]
  rcases hn : fs.node? place with _ | node
  · exact .inr ⟨route, place, mode, rfl, hdotted, by rw [hn]; nofun, rfl⟩
  cases node with
  | file content old => exact .inr ⟨route, place, old, rfl, hdotted, by rw [hn]; nofun, rfl⟩
  | directory => exact .inl ⟨_, rfl⟩
  | socket => exact .inl ⟨_, rfl⟩

theorem write_cases (path : String) (content : Bytes) (fs : FileSystem) :
    (∃ fault, write path content fs = .error fault fs) ∨
      ∃ place old mode, fs.find path = .ok (place, .file old mode) ∧
        ((∃ fault written, write path content fs = .error fault (fs.put place (.file written mode))) ∨
          write path content fs = .ok () (fs.put place (.file content mode))) := by
  unfold write
  rcases hf : fs.find path with fault | ⟨place, node⟩
  · exact .inl ⟨fault, bind_of_error (look_of_error hf) _⟩
  rw [bind_of_ok (look_of_ok hf)]
  cases node with
  | file old mode =>
    dsimp only
    rw [bind_of_ok (get_apply fs)]
    rcases fs.refusal .write fs.nodes with _ | fault
    · exact .inr ⟨place, old, mode, rfl, .inr rfl⟩
    · exact .inr ⟨place, old, mode, rfl, .inl ⟨fault, _, rfl⟩⟩
  | directory => exact .inl ⟨_, rfl⟩
  | socket => exact .inl ⟨_, rfl⟩

theorem sync_cases (fs : FileSystem) : (∃ fault, sync fs = .error fault fs) ∨ sync fs = .ok () fs :=
  permit_cases .sync fs

theorem rename_cases (source target : String) (fs : FileSystem) :
    (∃ fault, rename source target fs = .error fault fs) ∨
      ∃ route sourcePlace targetPlace node, fs.find source = .ok (sourcePlace, node) ∧
        fs.aim target = .ok (route, targetPlace) ∧ node ≠ .directory ∧ route.isDotted = false ∧
        route.slash = false ∧ fs.node? targetPlace ≠ some .directory ∧
          rename source target fs = .ok () ((fs.drop sourcePlace).put targetPlace node) := by
  unfold rename
  rcases permit_cases .rename fs with ⟨fault, hp⟩ | hp
  · exact .inl ⟨fault, bind_of_error hp _⟩
  rw [bind_of_ok hp]
  rcases hs : fs.aim source with fault | ⟨sourceRoute, sourcePlace⟩
  · exact .inl ⟨fault, bind_of_error (look_of_error hs) _⟩
  rw [bind_of_ok (look_of_ok hs)]
  dsimp only
  rcases ha : fs.aim target with fault | ⟨route, targetPlace⟩
  · exact .inl ⟨fault, bind_of_error (look_of_error ha) _⟩
  rw [bind_of_ok (look_of_ok ha)]
  dsimp only
  by_cases hdotted : route.isDotted = true
  · exact .inl ⟨_, stop_of hdotted⟩
  rw [if_neg hdotted]
  rcases hf : fs.find source with fault | ⟨place, node⟩
  · exact .inl ⟨fault, bind_of_error (look_of_error hf) _⟩
  rw [bind_of_ok (look_of_ok hf)]
  dsimp only
  by_cases hnode : node = .directory
  · exact .inl ⟨_, stop_of hnode⟩
  rw [if_neg hnode]
  by_cases hslash : route.slash = true
  · exact .inl ⟨_, stop_of hslash⟩
  rw [if_neg hslash, bind_of_ok (get_apply fs)]
  by_cases htarget : fs.node? targetPlace = some .directory
  · exact .inl ⟨_, stop_of htarget⟩
  rw [if_neg htarget]
  obtain ⟨_, hs', -⟩ := FileSystem.find_eq_ok hf hnode
  cases hs.symm.trans hs'
  exact .inr ⟨route, _, targetPlace, node, rfl, rfl, hnode, by simpa using hdotted,
    by simpa using hslash, htarget, rfl⟩

theorem remove_cases (path : String) (fs : FileSystem) :
    remove path fs = .ok () fs ∨
      ∃ place old mode, fs.find path = .ok (place, .file old mode) ∧
        remove path fs = .ok () (fs.drop place) := by
  rw [remove, modify_apply]
  split
  · exact .inr ⟨_, _, _, ‹_›, rfl⟩
  · exact .inl rfl

/-! ## What actions keep -/

/-- An action that keeps a property of the tree, done or failed. -/
structure Keeps (I : FileSystem → Prop) (action : FileAction α) : Prop where
  left : ∀ fs, I fs → match action fs with
    | .ok _ fs' => I fs'
    | .error _ fs' => I fs'

variable {I : FileSystem → Prop}

theorem Keeps.of_error {action : FileAction α} (h : action.Keeps I) {fault : FileFault}
    (hfs : I fs) (hr : action fs = .error fault fs') : I fs' := by
  have := h.left fs hfs
  rwa [hr] at this

theorem Keeps.of_ok {action : FileAction α} (h : action.Keeps I) {a : α} (hfs : I fs)
    (hr : action fs = .ok a fs') : I fs' := by
  have := h.left fs hfs
  rwa [hr] at this

theorem keeps_pure (a : α) : (pure a : FileAction α).Keeps I := ⟨fun _ h => h⟩

theorem keeps_throw (fault : FileFault) : (throw fault : FileAction α).Keeps I := ⟨fun _ h => h⟩

theorem keeps_get : (get : FileAction FileSystem).Keeps I := ⟨fun _ h => h⟩

theorem keeps_bind {x : FileAction α} {f : α → FileAction β} (hx : x.Keeps I) (hf : ∀ a, (f a).Keeps I) :
    (x >>= f).Keeps I := by
  refine ⟨fun fs hfs => ?_⟩
  rw [bind_apply]
  rcases hr : x fs with ⟨a, fs'⟩ | ⟨fault, fs'⟩
  · exact (hf a).left fs' (hx.of_ok hfs hr)
  · exact hx.of_error hfs hr

theorem keeps_tryCatch {x : FileAction α} {handle : FileFault → FileAction α} (hx : x.Keeps I)
    (hh : ∀ fault, (handle fault).Keeps I) : (tryCatch x handle : FileAction α).Keeps I := by
  refine ⟨fun fs hfs => ?_⟩
  rcases hr : x fs with ⟨a, fs'⟩ | ⟨fault, fs'⟩
  · rw [tryCatch_of_ok hr]
    exact hx.of_ok hfs hr
  · rw [tryCatch_of_error hr]
    exact (hh fault).left fs' (hx.of_error hfs hr)

theorem keeps_unlessThere (path : String) (fault : FileFault) :
    (makeFirst.unlessThere path fault).Keeps I := by
  refine keeps_bind keeps_get fun fs => ?_
  split
  · exact keeps_pure ()
  · exact keeps_throw fault

/-- Directories are made one by one. -/
theorem keeps_makeFirst {paths : List String} (h : ∀ path ∈ paths, (makeDirectory path).Keeps I) :
    (makeFirst paths).Keeps I := by
  induction paths with
  | nil => exact keeps_pure ()
  | cons path above ih =>
    obtain ⟨hpath, habove⟩ := List.forall_mem_cons.1 h
    refine keeps_tryCatch hpath fun fault => ?_
    split
    · exact keeps_bind (ih habove) fun _ => keeps_tryCatch hpath fun _ => keeps_unlessThere path _
    · exact keeps_unlessThere path _

theorem keeps_makeDirectories (h : ∀ path' ∈ FilePath.ancestors path, (makeDirectory path').Keeps I) :
    (makeDirectories path).Keeps I := keeps_makeFirst h

theorem keeps_sync : sync.Keeps I := by
  refine ⟨fun fs hfs => ?_⟩
  rcases sync_cases fs with ⟨fault, h⟩ | h
  · rw [h]
    exact hfs
  · rw [h]
    exact hfs

/-- Writing changes the content of one file, whether or not all of it is written. -/
theorem keeps_write (h : ∀ fs place old mode written, fs.find path = .ok (place, .file old mode) →
    I fs → I (fs.put place (.file written mode))) : (write path content).Keeps I := by
  refine ⟨fun fs hfs => ?_⟩
  rcases write_cases path content fs with
    ⟨fault, hw⟩ | ⟨place, old, mode, hf, ⟨fault, written, hw⟩ | hw⟩ <;> rw [hw]
  · exact hfs
  · exact h fs place old mode written hf hfs
  · exact h fs place old mode content hf hfs

/-- Whether an action keeps a property of the tree when it fails. -/
def KeepsFailing (I : FileSystem → Prop) (action : FileAction α) : Prop :=
  ∀ ⦃fs fault fs'⦄, I fs → action fs = .error fault fs' → I fs'

/-- Of two actions that fail together, the first one may have been done. -/
theorem keepsFailing_bind {x : FileAction α} {f : α → FileAction β} (hx : x.Keeps I)
    (hf : ∀ a, (f a).KeepsFailing I) : (x >>= f).KeepsFailing I := by
  intro fs fault fs' hfs h
  rcases hr : x fs with ⟨a, next⟩ | ⟨_, _⟩
  · rw [bind_of_ok hr] at h
    exact hf a (hx.of_ok hfs hr) h
  · rw [bind_of_error hr] at h
    cases h
    exact hx.of_error hfs hr

/-- Nothing is moved if moving it fails. -/
theorem keepsFailing_rename (source target : String) : (rename source target).KeepsFailing I := by
  intro fs fault fs' hfs h
  rcases rename_cases source target fs with ⟨_, hr⟩ | ⟨_, _, _, _, -, -, -, -, -, -, hr⟩ <;>
    cases h.symm.trans hr
  exact hfs

/-! ### A tree stays a tree -/

open FileSystem (IsTree)

theorem isTree_put_of_aim {route : Route} {place : Place} (ht : fs.IsTree)
    (ha : fs.aim path = .ok (route, place)) (hd : route.isDotted = false)
    (ho : fs.node? place ≠ some .directory) (node : Node) : (fs.put place node).IsTree := by
  obtain ⟨here, rfl, hhere⟩ := ht.exists_of_aim ha
  rw [FileSystem.toward_of_not_isDotted hd] at ho ⊢
  exact ht.put hhere ho node

theorem keeps_isTree_makeDirectory (path : String) : (makeDirectory path).Keeps IsTree := by
  refine ⟨fun fs ht => ?_⟩
  rcases makeDirectory_cases path fs with ⟨fault, h⟩ | ⟨route, place, ha, hd, hn, h⟩ <;> rw [h]
  · exact ht
  · exact isTree_put_of_aim ht ha hd (by rw [hn]; nofun) _

theorem keeps_isTree_create (path : String) (mode : Nat) : (create path mode).Keeps IsTree := by
  refine ⟨fun fs ht => ?_⟩
  rcases create_cases path mode fs with ⟨fault, h⟩ | ⟨route, place, mode', ha, hd, hn, h⟩ <;> rw [h]
  · exact ht
  · exact isTree_put_of_aim ht ha hd hn _

theorem keeps_isTree_write (path : String) (content : Bytes) : (write path content).Keeps IsTree := by
  refine keeps_write fun fs place old mode written hf ht => ?_
  obtain ⟨route, ha, hd, -⟩ := FileSystem.find_eq_ok hf (by nofun)
  exact isTree_put_of_aim ht ha hd (FileSystem.node?_ne_directory_of_find hf (by nofun)) _

theorem keeps_isTree_remove (path : String) : (remove path).Keeps IsTree := by
  refine ⟨fun fs ht => ?_⟩
  rcases remove_cases path fs with h | ⟨place, old, mode, hf, h⟩ <;> rw [h]
  · exact ht
  · exact ht.drop (FileSystem.node?_ne_directory_of_find hf (by nofun))

theorem keeps_isTree_rename (source target : String) : (rename source target).Keeps IsTree := by
  refine ⟨fun fs ht => ?_⟩
  rcases rename_cases source target fs with ⟨fault, h⟩ |
    ⟨route, sourcePlace, targetPlace, node, hf, ha, hnode, hd, -, hn, h⟩ <;> rw [h]
  · exact ht
  · have hsource := FileSystem.node?_ne_directory_of_find hf hnode
    exact isTree_put_of_aim (ht.drop hsource)
      (FileSystem.aim_mono (FileSystem.retains_drop hsource) ha) hd
      (FileSystem.node?_drop_ne_directory hsource hn) _

/-! ### Until something is moved, a tree grows -/

section Grows

variable {base : FileSystem} {draft : Place}

theorem keeps_grows_makeDirectory (hup : ".." ∉ steps path)
    (hl : (FilePath.place path).length < draft.length) :
    (makeDirectory path).Keeps (base.Grows draft) := by
  refine ⟨fun fs hg => ?_⟩
  rcases makeDirectory_cases path fs with ⟨fault, h⟩ | ⟨route, place, ha, -, hn, h⟩ <;> rw [h]
  · exact hg
  · obtain rfl := FileSystem.place_of_aim hup ha
    exact hg.put_directory hn hl

theorem keeps_grows_create (hup : ".." ∉ steps path) (mode : Nat) :
    (create path mode).Keeps (base.Grows (FilePath.place path)) := by
  refine ⟨fun fs hg => ?_⟩
  rcases create_cases path mode fs with ⟨fault, h⟩ | ⟨route, place, mode', ha, -, -, h⟩ <;> rw [h]
  · exact hg
  · obtain rfl := FileSystem.place_of_aim hup ha
    exact hg.put_draft _

theorem keeps_grows_write (hup : ".." ∉ steps path) (content : Bytes) :
    (write path content).Keeps (base.Grows (FilePath.place path)) := by
  refine keeps_write fun fs place old mode written hf hg => ?_
  obtain ⟨route, ha, -⟩ := FileSystem.find_eq_ok hf (by nofun)
  obtain rfl := FileSystem.place_of_aim hup ha
  exact hg.put_draft _

theorem keeps_grows_remove (hup : ".." ∉ steps path) :
    (remove path).Keeps (base.Grows (FilePath.place path)) := by
  refine ⟨fun fs hg => ?_⟩
  rcases remove_cases path fs with h | ⟨place, old, mode, hf, h⟩ <;> rw [h]
  · exact hg
  · obtain ⟨route, ha, -⟩ := FileSystem.find_eq_ok hf (by nofun)
    obtain rfl := FileSystem.place_of_aim hup ha
    exact hg.drop_draft

end Grows

/-! ## What is read afterwards -/

theorem read_of_node? {route : Route} {place : Place} {mode : Nat}
    (ha : fs.aim path = .ok (route, place)) (hd : route.isDotted = false) (hs : route.slash = false)
    (hn : fs.node? place = some (.file content mode)) : fs.read path = .ok content := by
  rw [FileSystem.read, FileSystem.find_of_node? ha hd hs hn]
  rfl

/-- What was written is read. -/
theorem read_of_write (h : write path content fs = .ok () fs') : fs'.read path = .ok content := by
  rcases write_cases path content fs with
    ⟨fault, hw⟩ | ⟨place, old, mode, hf, ⟨fault, written, hw⟩ | hw⟩ <;> cases h.symm.trans hw
  obtain ⟨route, ha, hd, hs, -⟩ := FileSystem.find_eq_ok hf (by nofun)
  have hplace := FileSystem.node?_ne_directory_of_find hf (by nofun)
  exact read_of_node? (FileSystem.aim_mono (FileSystem.retains_put hplace _) ha) hd hs
    (FileSystem.node?_put_self (FileSystem.not_isStart hplace) _ fs)

/-- What was read under the old name is read under the new one. -/
theorem read_of_rename (h : rename source target fs = .ok () fs') (hr : fs.read source = .ok content) :
    fs'.read target = .ok content := by
  rcases rename_cases source target fs with ⟨fault, hm⟩ |
    ⟨route, sourcePlace, targetPlace, node, hf, ha, hnode, hd, hs, hn, hm⟩ <;> cases h.symm.trans hm
  have hsource := FileSystem.node?_ne_directory_of_find hf hnode
  have htarget := FileSystem.node?_drop_ne_directory hsource hn
  obtain ⟨mode, rfl⟩ : ∃ mode, node = .file content mode := by
    rw [FileSystem.read, hf] at hr
    cases node with
    | file old mode =>
      cases hr
      exact ⟨mode, rfl⟩
    | directory => cases hr
    | socket => cases hr
  have haim := FileSystem.aim_mono (FileSystem.retains_put htarget (.file content mode))
    (FileSystem.aim_mono (FileSystem.retains_drop hsource) ha)
  exact read_of_node? haim hd hs (FileSystem.node?_put_self (FileSystem.not_isStart htarget) _ _)

end FileAction

end VaultLink
