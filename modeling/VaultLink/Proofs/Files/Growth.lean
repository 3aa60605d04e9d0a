import VaultLink.Proofs.Files.Tree

/-!
# Trees that grow

A file is replaced by way of a draft beside it, and before that the directories above it are made. Until
the draft takes its place, the tree differs from what it was at the draft and in directories that are new
(`FileSystem.Grows`). Then reading the file gives what it gave before, with one exception: where a
directory of its path was missing there was no file, and once the directory is there the names of the path
have to be such that a file could have them (`FileSystem.read_of_grows`).
-/

namespace VaultLink

open FilePath (counted split steps)

/-- A path with a name that no file can have. -/
def FilePath.HasLongName (path : String) : Prop :=
  ∃ name ∈ split path, Route.nameCapacity < name.utf8ByteSize

instance (path : String) : Decidable (FilePath.HasLongName path) :=
  inferInstanceAs (Decidable (∃ name ∈ split path, Route.nameCapacity < name.utf8ByteSize))

namespace FileSystem

variable {fs fs₁ fs₂ : FileSystem} {draft place here : Place} {node : Node} {path : String}
  {names : List String} {fault : FileFault}

/-- What is at each place is as it was, or a new directory; only at the draft it may be anything. Nothing
new is as deep as the draft. -/
def Grows (draft : Place) (fs fs₁ : FileSystem) : Prop :=
  ∀ place, place ≠ draft → fs₁.node? place = fs.node? place ∨
    (fs.node? place = none ∧ fs₁.node? place = some .directory ∧ place.length < draft.length)

namespace Grows

theorem refl (draft : Place) (fs : FileSystem) : fs.Grows draft fs := fun _ _ => .inl rfl

theorem put_draft (hg : fs.Grows draft fs₁) (node : Node) : fs.Grows draft (fs₁.put draft node) := by
  intro place hp
  rw [node?_put_of_ne hp]
  exact hg place hp

theorem drop_draft (hg : fs.Grows draft fs₁) : fs.Grows draft (fs₁.drop draft) := by
  intro place hp
  rw [node?_drop_of_ne hp]
  exact hg place hp

theorem put_directory (hg : fs.Grows draft fs₁) (hn : fs₁.node? here = none)
    (hl : here.length < draft.length) : fs.Grows draft (fs₁.put here .directory) := by
  intro place hp
  by_cases hh : place = here
  · subst hh
    refine .inr ⟨?_, node?_put_self (not_isStart (by rw [hn]; nofun)) _ _, hl⟩
    rcases hg place hp with hsame | ⟨hnone, -⟩
    · rw [← hsame, hn]
    · exact hnone
  · rw [node?_put_of_ne hh]
    exact hg place hp

/-- Nothing new is as deep as the draft. -/
theorem node?_eq (hg : fs.Grows draft fs₁) (hp : place ≠ draft) (hl : draft.length ≤ place.length) :
    fs₁.node? place = fs.node? place := by
  rcases hg place hp with hsame | ⟨-, -, hlt⟩
  · exact hsame
  · exact absurd hlt (Nat.not_lt.2 hl)

end Grows

/-- Why names may lead nowhere if only directories are in the way: one is missing, or has no name that a
file can have. -/
def FaultOfWay (names : List String) (fault : FileFault) : Prop :=
  fault = .notFound ∨ fault = .nameTooLong ∧ ∃ name ∈ names, Route.nameCapacity < name.utf8ByteSize

theorem FaultOfWay.mono {more : List String} (h : FaultOfWay names fault) (hs : names ⊆ more) :
    FaultOfWay more fault :=
  h.imp_right (And.imp_right fun ⟨name, hm, hlong⟩ => ⟨name, hs hm, hlong⟩)

theorem faultOfWay_of_checkName {name : String} (h : checkName name = .error fault)
    (hm : name ∈ names) : FaultOfWay names fault := by
  unfold checkName at h
  split at h <;> cases h
  exact .inr ⟨rfl, name, hm, ‹_›⟩

namespace Grows

/-- Where nothing was, only new directories can be in the way. -/
theorem faultOfWay_of_enter (hg : fs.Grows draft fs₁) (ht : fs.IsTree)
    (hn : ∀ name ∈ names, name ≠ "" ∧ name ≠ "..") (hd : ¬ draft <+: here ++ counted names)
    (hmissing : fs.node? here = none) (h : fs₁.enter here names = .error fault) :
    FaultOfWay names fault := by
  induction names generalizing here with
  | nil => cases h
  | cons name names ih =>
    obtain ⟨⟨h₀, h₂⟩, hns⟩ := List.forall_mem_cons.1 hn
    rw [enter_cons] at h
    by_cases h₁ : name = "."
    · subst h₁
      rw [step_dot] at h
      exact (ih hns hd hmissing h).mono (List.subset_cons_self _ _)
    rw [FilePath.counted_cons h₀ h₁, List.append_cons] at hd
    have hnext : fs.node? (here ++ [name]) = none :=
      ht.node?_of_prefix hmissing (List.prefix_append _ _)
    have hne : here ++ [name] ≠ draft := fun heq => hd (heq ▸ List.prefix_append _ _)
    rw [step_of_name h₁ h₂] at h
    rcases hc : checkName name with e | ⟨⟩ <;> rw [hc] at h
    · cases h
      exact faultOfWay_of_checkName hc List.mem_cons_self
    rcases hg _ hne with hsame | ⟨-, hdir, -⟩
    · rw [hsame, hnext] at h
      cases h
      exact .inl rfl
    · rw [hdir] at h
      exact (ih hns hd hnext h).mono (List.subset_cons_self _ _)

/-- Names lead where they led, unless a directory on the way was missing. -/
theorem enter_eq_or (hg : fs.Grows draft fs₁) (ht : fs.IsTree)
    (hn : ∀ name ∈ names, name ≠ "" ∧ name ≠ "..") (hd : ¬ draft <+: here ++ counted names) :
    fs₁.enter here names = fs.enter here names ∨
      fs.enter here names = .error .notFound ∧ fs.node? (here ++ counted names) = none ∧
        ∀ fault, fs₁.enter here names = .error fault → FaultOfWay names fault := by
  induction names generalizing here with
  | nil => exact .inl rfl
  | cons name names ih =>
    obtain ⟨⟨h₀, h₂⟩, hns⟩ := List.forall_mem_cons.1 hn
    have hmono (fault : FileFault) (h : FaultOfWay names fault) : FaultOfWay (name :: names) fault :=
      h.mono (List.subset_cons_self _ _)
    rw [enter_cons, enter_cons]
    by_cases h₁ : name = "."
    · subst h₁
      rw [step_dot, step_dot]
      exact (ih hns hd).imp_right fun ⟨hf, hnone, h⟩ => ⟨hf, hnone, fun fault hfault =>
        hmono fault (h fault hfault)⟩
    rw [FilePath.counted_cons h₀ h₁, List.append_cons] at hd ⊢
    have hne : here ++ [name] ≠ draft := fun heq => hd (heq ▸ List.prefix_append _ _)
    rw [step_of_name h₁ h₂, step_of_name h₁ h₂]
    rcases checkName name with e | ⟨⟩
    · exact .inl rfl
    rcases hg _ hne with hsame | ⟨hnone, hdir, -⟩
    · rw [hsame]
      rcases fs.node? (here ++ [name]) with _ | node
      · exact .inl rfl
      · cases node with
        | directory =>
          exact (ih hns hd).imp_right fun ⟨hf, hnone, h⟩ => ⟨hf, hnone, fun fault hfault =>
            hmono fault (h fault hfault)⟩
        | file => exact .inl rfl
        | socket => exact .inl rfl
    · rw [hnone, hdir]
      exact .inr ⟨rfl, ht.node?_of_prefix hnone (List.prefix_append _ _), fun fault hfault =>
        hmono fault (hg.faultOfWay_of_enter ht hns hd hnone hfault)⟩

end Grows

/-! ## Reading -/

theorem read_of_aim_eq_error (h : fs.aim path = .error fault) : fs.read path = .error fault := by
  rw [read, find, h]
  rfl

/-- What is read depends on nothing but where the path leads and what is there. -/
theorem read_congr (h : fs₁.aim path = fs.aim path)
    (hn : ∀ route place, fs.aim path = .ok (route, place) → fs₁.node? place = fs.node? place) :
    fs₁.read path = fs.read path := by
  rcases ha : fs.aim path with fault | ⟨route, place⟩
  · rw [read_of_aim_eq_error ha, read_of_aim_eq_error (h.trans ha)]
  · rw [read, read, find_of_aim ha, find_of_aim (h.trans ha), hn route place ha]

/-- Reading a file beside the draft gives what it gave, unless a directory of its path was missing and one
of its names is one that no file can have. -/
theorem Grows.read_eq_or (hg : fs.Grows draft fs₁) (ht : fs.IsTree) (ht₁ : fs₁.IsTree)
    (hup : ".." ∉ steps path) (hne : FilePath.place path ≠ draft)
    (hl : (FilePath.place path).length = draft.length) :
    fs₁.read path = fs.read path ∨
      fs.read path = .error .notFound ∧ fs₁.read path = .error .nameTooLong ∧
        FilePath.HasLongName path := by
  rcases hr : Route.ofPath path with fault | route
  · have haim (fs : FileSystem) : fs.aim path = .error fault := by
      rw [aim, hr]
      rfl
    exact .inl (read_congr ((haim fs₁).trans (haim fs).symm) (fun _ _ h => by cases (haim fs).symm.trans h))
  have hsame : fs₁.node? (FilePath.place path) = fs.node? (FilePath.place path) :=
    hg.node?_eq hne (Nat.le_of_eq hl.symm)
  obtain ⟨hstart, hsteps, hmem⟩ := Route.ofPath_eq_ok hr
  have hnames := names_of_ofPath hr hup
  have hfront : route.start ++ counted route.front <+: FilePath.place path := by
    rw [hstart, FilePath.place, ← hsteps, FilePath.counted_append, ← List.append_assoc]
    exact List.prefix_append _ _
  have hdraft : ¬ draft <+: route.start ++ counted route.front := fun h =>
    hne ((h.trans hfront).eq_of_length hl.symm).symm
  have haim (fs : FileSystem) : fs.aim path = fs.enter route.start route.front >>= fun here =>
      checkName route.last >>= fun _ => .ok (route, here.toward route.last) := by
    rw [aim, hr]
    rfl
  rcases hg.enter_eq_or ht (fun name hm => hnames name (List.mem_append_left _ hm)) hdraft with
    heq | ⟨hfault, hnone, hway⟩
  · refine .inl (read_congr (by rw [haim, haim, heq]) fun route place ha => ?_)
    rw [place_of_aim hup ha, hsame]
  -- A directory was missing: before, there was nothing to read.
  have hread : fs.read path = .error .notFound := read_of_aim_eq_error (by rw [haim, hfault]; rfl)
  rcases ha : fs₁.aim path with fault | ⟨route', place⟩
  · have hfaultOfWay : FaultOfWay (route.front ++ [route.last]) fault := by
      rw [haim] at ha
      rcases he : fs₁.enter route.start route.front with fault' | here <;> rw [he] at ha
      · cases ha
        exact (hway fault he).mono (List.subset_append_left _ _)
      · rcases hc : checkName route.last with fault' | ⟨⟩ <;> rw [hc] at ha <;> cases ha
        exact faultOfWay_of_checkName hc (List.mem_append_right _ List.mem_cons_self)
    rw [hread, read_of_aim_eq_error ha]
    refine hfaultOfWay.imp (fun h => by rw [h]) ?_
    rintro ⟨rfl, name, hm, hlong⟩
    refine ⟨rfl, rfl, name, (hmem name hm).2.resolve_right ?_, hlong⟩
    rintro rfl
    exact absurd hlong (by decide)
  · -- The way is open now, but nothing new is as deep as the file.
    have hgone : fs₁.node? (FilePath.place path) = none := hsame.trans (ht.node?_of_prefix hnone hfront)
    obtain rfl := place_of_aim hup ha
    have hdotted : route'.isDotted = false := by
      rw [← Bool.not_eq_true]
      intro hd
      cases hgone.symm.trans (ht₁.node?_of_isDotted ha hd)
    left
    rw [hread, read, find_of_aim ha, hdotted, hgone]
    rfl

end FileSystem

end VaultLink
