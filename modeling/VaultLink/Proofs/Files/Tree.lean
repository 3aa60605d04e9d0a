import VaultLink.Files.FileSystem
import VaultLink.Proofs.Files.Path
import VaultLink.Proofs.Steps

/-!
# Where paths lead in a tree

In a tree whatever is somewhere is in a directory (`FileSystem.IsTree`). A path that does not go up then
leads to its place or nowhere (`FileSystem.place_of_aim`), it leads there still if directories stay
directories (`FileSystem.Retains`, `FileSystem.aim_mono`), and what is put at its end or taken away from
there leaves a tree (`IsTree.put`, `IsTree.drop`).
-/

namespace VaultLink

open FilePath (counted split steps)

/-! ## Routes -/

/-- The names of a route are those of its path; the ones that count are in their places. -/
theorem Route.ofPath_eq_ok {path : String} {route : Route} (h : ofPath path = .ok route) :
    route.start = FilePath.start path ∧ counted (route.front ++ [route.last]) = steps path ∧
      ∀ name ∈ route.front ++ [route.last], name ≠ "" ∧ (name ∈ split path ∨ name = ".") := by
  unfold ofPath at h
  split at h
  · cases h
  split at h
  · cases h
  split at h
  · cases h
  cases h
  dsimp only
  generalize hnames : (split path).filter (· ≠ "") = names
  have hsteps : steps path = counted names := by
    rw [← hnames, counted, List.filter_filter, steps, counted]
    refine List.filter_congr fun part _ => ?_
    by_cases hpart : part = "" <;> simp [hpart, FilePath.isIdle]
  have hmem (name : String) (h : name ∈ names) : name ≠ "" ∧ (name ∈ split path ∨ name = ".") := by
    rw [← hnames, List.mem_filter] at h
    exact ⟨by simpa using h.2, .inl h.1⟩
  refine ⟨rfl, ?_⟩
  rw [hsteps]
  rcases List.eq_nil_or_concat names with rfl | ⟨init, last, rfl⟩
  · refine ⟨rfl, fun name hname => ?_⟩
    obtain rfl : name = "." := by simpa using hname
    exact ⟨by decide, .inr rfl⟩
  · rw [List.concat_eq_append] at hmem ⊢
    rw [List.dropLast_concat, List.getLastD_concat]
    exact ⟨rfl, hmem⟩

namespace FileSystem

variable {fs fs' : FileSystem} {place other here there : Place} {node : Node} {name path : String}
  {names : List String} {route : Route}

/-! ## Nodes -/

/-- A place from which paths start. -/
def IsStart (place : Place) : Prop := place = [] ∨ place = [""]

theorem node?_of_isStart (h : IsStart place) (fs : FileSystem) : fs.node? place = some .directory := by
  rcases h with rfl | rfl <;> rfl

theorem node?_of_not_isStart (h : ¬ IsStart place) (fs : FileSystem) :
    fs.node? place = fs.nodes.lookup place := by
  rw [node?, if_neg (by simpa [IsStart] using h)]

theorem lookup_filter_ne (h : other ≠ place) (nodes : List (Place × Node)) :
    (nodes.filter fun entry => entry.1 ≠ place).lookup other = nodes.lookup other := by
  induction nodes with
  | nil => rfl
  | cons entry nodes ih =>
    obtain ⟨at_, node⟩ := entry
    rw [List.filter_cons]
    by_cases hat : at_ = place
    · subst hat
      rw [if_neg (by simp), ih, List.lookup_cons, beq_false_of_ne h]
    · rw [if_pos (by simpa using hat), List.lookup_cons, List.lookup_cons, ih]

theorem lookup_filter_self (place : Place) (nodes : List (Place × Node)) :
    (nodes.filter fun entry => entry.1 ≠ place).lookup place = none :=
  List.lookup_eq_none_iff.2 fun entry he => by
    have hne : entry.1 ≠ place := by simpa using (List.mem_filter.1 he).2
    simpa using hne.symm

theorem node?_put_self (h : ¬ IsStart place) (node : Node) (fs : FileSystem) :
    (fs.put place node).node? place = some node := by
  rw [node?_of_not_isStart h, put, List.lookup_cons_self]

theorem node?_put_of_ne (h : other ≠ place) (node : Node) (fs : FileSystem) :
    (fs.put place node).node? other = fs.node? other := by
  by_cases hs : IsStart other
  · rw [node?_of_isStart hs, node?_of_isStart hs]
  · rw [node?_of_not_isStart hs, node?_of_not_isStart hs, put, List.lookup_cons, beq_false_of_ne h]
    exact lookup_filter_ne h _

theorem node?_drop_self (h : ¬ IsStart place) (fs : FileSystem) : (fs.drop place).node? place = none := by
  rw [node?_of_not_isStart h, drop, lookup_filter_self]

theorem node?_drop_of_ne (h : other ≠ place) (fs : FileSystem) :
    (fs.drop place).node? other = fs.node? other := by
  by_cases hs : IsStart other
  · rw [node?_of_isStart hs, node?_of_isStart hs]
  · rw [node?_of_not_isStart hs, node?_of_not_isStart hs, drop, lookup_filter_ne h]

/-- Whatever is somewhere is in a directory. -/
def IsTree (fs : FileSystem) : Prop :=
  ∀ place name, fs.node? (place ++ [name]) ≠ none → fs.node? place = some .directory

/-- Where nothing is but the directories from which paths start, everything is in a directory. -/
theorem isTree_of_nodes_eq_nil (h : fs.nodes = []) : fs.IsTree := by
  intro place name hn
  by_cases hs : IsStart (place ++ [name])
  · obtain rfl : place = [] := by
      rcases hs with hnil | hroot
      · exact absurd hnil (by simp)
      · exact (List.append_eq_singleton_iff.1 hroot).elim And.left fun h => absurd h.2 (by simp)
    rfl
  · rw [node?_of_not_isStart hs, h] at hn
    exact absurd rfl hn

/-- Nothing is below a place where nothing is. -/
theorem IsTree.node?_of_prefix (ht : fs.IsTree) (h : fs.node? place = none) (hp : place <+: other) :
    fs.node? other = none := by
  obtain ⟨names, rfl⟩ := hp
  induction names generalizing place with
  | nil => rwa [List.append_nil]
  | cons name names ih =>
    have hnext : fs.node? (place ++ [name]) = none := by
      rcases hn : fs.node? (place ++ [name]) with _ | node
      · rfl
      · cases h.symm.trans (ht place name (by rw [hn]; nofun))
    have := ih hnext
    rwa [List.append_assoc] at this

/-! ## Steps -/

theorem step_dot (fs : FileSystem) (here : Place) : fs.step here "." = .ok here := by
  simp [step, Place.toward, pure, Except.pure]

theorem step_up (fs : FileSystem) (here : Place) : fs.step here ".." = .ok here.above := by
  simp [step, Place.toward, pure, Except.pure]

/-- A name leads into the directory of that name, if there is one. -/
theorem step_of_name (h₁ : name ≠ ".") (h₂ : name ≠ "..") (fs : FileSystem) (here : Place) :
    fs.step here name = checkName name >>= fun _ =>
      match fs.node? (here ++ [name]) with
      | none => .error .notFound
      | some .directory => .ok (here ++ [name])
      | some _ => .error .notDirectory := by
  simp only [step, Place.toward, h₁, h₂, decide_false, Bool.or_self, Bool.false_eq_true, if_false]
  rfl

theorem step_eq_ok (h₁ : name ≠ ".") (h₂ : name ≠ "..") (h : fs.step here name = .ok there) :
    there = here ++ [name] ∧ checkName name = .ok () ∧ fs.node? there = some .directory := by
  rw [step_of_name h₁ h₂] at h
  rcases hc : checkName name with fault | ⟨⟩
  · rw [hc] at h
    cases h
  rw [hc] at h
  simp only [bind, Except.bind] at h
  split at h
  · cases h
  · cases h
    exact ⟨rfl, rfl, ‹_›⟩
  · cases h

/-- A directory stays one. -/
def Retains (fs fs' : FileSystem) : Prop :=
  ∀ place, fs.node? place = some .directory → fs'.node? place = some .directory

theorem step_mono (hr : fs.Retains fs') (h : fs.step here name = .ok there) :
    fs'.step here name = .ok there := by
  by_cases h₁ : name = "."
  · subst h₁
    rw [step_dot] at h ⊢
    exact h
  by_cases h₂ : name = ".."
  · subst h₂
    rw [step_up] at h ⊢
    exact h
  obtain ⟨rfl, hc, hd⟩ := step_eq_ok h₁ h₂ h
  rw [step_of_name h₁ h₂, hc, hr _ hd]
  rfl

theorem enter_cons (fs : FileSystem) (here : Place) (name : String) (names : List String) :
    fs.enter here (name :: names) = fs.step here name >>= fun there => fs.enter there names := rfl

theorem enter_mono (hr : fs.Retains fs') (h : fs.enter here names = .ok there) :
    fs'.enter here names = .ok there := by
  induction names generalizing here with
  | nil => exact h
  | cons name names ih =>
    obtain ⟨next, hn, h⟩ := bind_eq_ok.1 h
    exact bind_eq_ok.2 ⟨next, step_mono hr hn, ih h⟩

/-- Above a directory there is a directory. -/
theorem IsTree.node?_above (ht : fs.IsTree) (hd : fs.node? here = some .directory) :
    fs.node? here.above = some .directory := by
  unfold Place.above
  split
  · exact hd
  rcases List.eq_nil_or_concat here with rfl | ⟨init, last, rfl⟩
  · exact hd
  · rw [List.concat_eq_append] at hd ⊢
    rw [List.dropLast_concat]
    exact ht init last (by rw [hd]; nofun)

/-- Names lead from a directory into a directory. -/
theorem IsTree.node?_of_enter (ht : fs.IsTree) (hd : fs.node? here = some .directory)
    (h : fs.enter here names = .ok there) : fs.node? there = some .directory := by
  induction names generalizing here with
  | nil =>
    cases h
    exact hd
  | cons name names ih =>
    obtain ⟨next, hn, h⟩ := bind_eq_ok.1 h
    refine ih ?_ h
    by_cases h₁ : name = "."
    · subst h₁
      rw [step_dot] at hn
      cases hn
      exact hd
    by_cases h₂ : name = ".."
    · subst h₂
      rw [step_up] at hn
      cases hn
      exact ht.node?_above hd
    · exact (step_eq_ok h₁ h₂ hn).2.2

/-- Names that do not go up lead to the place below with those of them that count. -/
theorem eq_of_enter (hn : ∀ name ∈ names, name ≠ "" ∧ name ≠ "..")
    (h : fs.enter here names = .ok there) : there = here ++ counted names := by
  induction names generalizing here with
  | nil =>
    cases h
    exact (List.append_nil _).symm
  | cons name names ih =>
    obtain ⟨⟨h₀, h₂⟩, hns⟩ := List.forall_mem_cons.1 hn
    obtain ⟨next, hs, h⟩ := bind_eq_ok.1 h
    have := ih hns h
    by_cases h₁ : name = "."
    · subst h₁
      rw [step_dot] at hs
      cases hs
      exact this
    · obtain ⟨rfl, -⟩ := step_eq_ok h₁ h₂ hs
      rw [this, FilePath.counted_cons h₀ h₁, List.append_assoc]
      rfl

/-! ## Where a path leads -/

theorem aim_eq_ok_iff : fs.aim path = .ok (route, place) ↔
    Route.ofPath path = .ok route ∧ ∃ here, fs.enter route.start route.front = .ok here ∧
      checkName route.last = .ok () ∧ place = here.toward route.last := by
  refine bind_eq_ok.trans ⟨?_, ?_⟩
  · rintro ⟨route', hroute, h⟩
    obtain ⟨here, he, h⟩ := bind_eq_ok.1 h
    obtain ⟨⟨⟩, hc, h⟩ := bind_eq_ok.1 h
    cases h
    exact ⟨hroute, here, he, hc, rfl⟩
  · rintro ⟨hroute, here, he, hc, rfl⟩
    exact ⟨route, hroute, bind_eq_ok.2 ⟨here, he, bind_eq_ok.2 ⟨(), hc, rfl⟩⟩⟩

theorem aim_mono (hr : fs.Retains fs') (h : fs.aim path = .ok (route, place)) :
    fs'.aim path = .ok (route, place) := by
  obtain ⟨hroute, here, he, hc, hp⟩ := aim_eq_ok_iff.1 h
  exact aim_eq_ok_iff.2 ⟨hroute, here, enter_mono hr he, hc, hp⟩

/-- The names of the route of a path that does not go up. -/
theorem names_of_ofPath (hr : Route.ofPath path = .ok route) (hup : ".." ∉ steps path) :
    ∀ name ∈ route.front ++ [route.last], name ≠ "" ∧ name ≠ ".." := by
  obtain ⟨-, -, hmem⟩ := Route.ofPath_eq_ok hr
  intro name hname
  refine ⟨(hmem name hname).1, ?_⟩
  rintro rfl
  rcases (hmem ".." hname).2 with hsplit | hdot
  · exact hup (FilePath.up_mem_steps_iff.2 hsplit)
  · exact absurd hdot (by decide)

/-- A path that does not go up leads to its place. -/
theorem place_of_aim (hup : ".." ∉ steps path) (h : fs.aim path = .ok (route, place)) :
    place = FilePath.place path := by
  obtain ⟨hroute, here, he, -, rfl⟩ := aim_eq_ok_iff.1 h
  have hnames := names_of_ofPath hroute hup
  obtain ⟨hstart, hsteps, -⟩ := Route.ofPath_eq_ok hroute
  have hlast := hnames route.last (List.mem_append_right _ List.mem_cons_self)
  rw [eq_of_enter (fun name hname => hnames name (List.mem_append_left _ hname)) he, hstart,
    FilePath.place, ← hsteps, FilePath.counted_append, ← List.append_assoc]
  by_cases hdot : route.last = "."
  · rw [hdot]
    simp [Place.toward, counted, FilePath.isIdle]
  · rw [FilePath.counted_singleton (by simp [FilePath.isIdle, hlast.1, hdot])]
    simp [Place.toward, hdot, hlast.2]

theorem isStart_of_ofPath (h : Route.ofPath path = .ok route) : IsStart route.start := by
  rw [(Route.ofPath_eq_ok h).1, FilePath.start]
  split
  · exact .inr rfl
  · exact .inl rfl

/-- What a path ends in is looked for in a directory. -/
theorem IsTree.exists_of_aim (ht : fs.IsTree) (h : fs.aim path = .ok (route, place)) :
    ∃ here, place = here.toward route.last ∧ fs.node? here = some .directory := by
  obtain ⟨hroute, here, he, -, hp⟩ := aim_eq_ok_iff.1 h
  exact ⟨here, hp, ht.node?_of_enter (node?_of_isStart (isStart_of_ofPath hroute) fs) he⟩

theorem toward_of_not_isDotted (h : route.isDotted = false) (here : Place) :
    here.toward route.last = here ++ [route.last] := by
  obtain ⟨h₁, h₂⟩ : route.last ≠ "." ∧ route.last ≠ ".." := by simpa [Route.isDotted] using h
  simp [Place.toward, h₁, h₂]

/-- A path that ends in dots leads to a directory. -/
theorem IsTree.node?_of_isDotted (ht : fs.IsTree) (h : fs.aim path = .ok (route, place))
    (hd : route.isDotted = true) : fs.node? place = some .directory := by
  obtain ⟨here, rfl, hhere⟩ := ht.exists_of_aim h
  have hdots : route.last = "." ∨ route.last = ".." := by simpa [Route.isDotted] using hd
  rcases hdots with hdot | hup
  · simpa [Place.toward, hdot] using hhere
  · simpa [Place.toward, hup] using ht.node?_above hhere

/-- What is found at the place of a path. -/
theorem find_of_aim (h : fs.aim path = .ok (route, place)) : fs.find path =
    if route.isDotted then .ok (place, .directory)
    else match fs.node? place with
      | none => .error .notFound
      | some node => if route.slash && node ≠ .directory then .error .notDirectory else .ok (place, node) := by
  rw [find, h]
  show (if route.isDotted then _ else _) = _
  split
  · rfl
  rcases fs.node? place with _ | node
  · rfl
  · dsimp only
    split <;> rfl

theorem find_eq_ok (h : fs.find path = .ok (place, node)) (hn : node ≠ .directory) :
    ∃ route, fs.aim path = .ok (route, place) ∧ route.isDotted = false ∧ route.slash = false ∧
      fs.node? place = some node := by
  rcases ha : fs.aim path with fault | ⟨route, at_⟩
  · rw [find, ha] at h
    cases h
  rw [find_of_aim ha] at h
  split at h
  · cases h
    exact absurd rfl hn
  rename_i hdot
  split at h
  · cases h
  split at h
  · cases h
  rename_i hnode hslash
  cases h
  exact ⟨route, rfl, by simpa using hdot, by simpa [hn] using hslash, hnode⟩

theorem node?_ne_directory_of_find (h : fs.find path = .ok (place, node)) (hn : node ≠ .directory) :
    fs.node? place ≠ some .directory := by
  obtain ⟨_, -, -, -, hnode⟩ := find_eq_ok h hn
  rw [hnode]
  exact fun heq => hn (Option.some.inj heq)

theorem find_of_node? (h : fs.aim path = .ok (route, place)) (hd : route.isDotted = false)
    (hs : route.slash = false) (hn : fs.node? place = some node) : fs.find path = .ok (place, node) := by
  rw [find_of_aim h, hd, hs, hn]
  rfl

/-! ## Changes -/

theorem not_isStart (h : fs.node? place ≠ some .directory) : ¬ IsStart place :=
  fun hs => h (node?_of_isStart hs fs)

theorem retains_put (h : fs.node? place ≠ some .directory) (node : Node) :
    fs.Retains (fs.put place node) := by
  intro other ho
  rwa [node?_put_of_ne (by rintro rfl; exact h ho)]

theorem retains_drop (h : fs.node? place ≠ some .directory) : fs.Retains (fs.drop place) := by
  intro other ho
  rwa [node?_drop_of_ne (by rintro rfl; exact h ho)]

theorem node?_drop_ne_directory (hp : fs.node? place ≠ some .directory)
    (ho : fs.node? other ≠ some .directory) : (fs.drop place).node? other ≠ some .directory := by
  by_cases heq : other = place
  · rw [heq, node?_drop_self (not_isStart hp)]
    nofun
  · rwa [node?_drop_of_ne heq]

/-- Something new in a directory, and a file in place of another, leave a tree a tree. -/
theorem IsTree.put (ht : fs.IsTree) (hd : fs.node? here = some .directory)
    (ho : fs.node? (here ++ [name]) ≠ some .directory) (node : Node) :
    (fs.put (here ++ [name]) node).IsTree := by
  intro at_ below hb
  refine retains_put ho node at_ ?_
  by_cases hsame : at_ ++ [below] = here ++ [name]
  · obtain ⟨rfl, -⟩ := List.append_inj' hsame rfl
    exact hd
  · rw [node?_put_of_ne hsame] at hb
    exact ht at_ below hb

theorem IsTree.drop (ht : fs.IsTree) (h : fs.node? place ≠ some .directory) : (fs.drop place).IsTree := by
  intro at_ below hb
  refine retains_drop h at_ ?_
  by_cases hsame : at_ ++ [below] = place
  · subst hsame
    exact absurd (node?_drop_self (not_isStart h) fs) hb
  · rw [node?_drop_of_ne hsame] at hb
    exact ht at_ below hb

end FileSystem

end VaultLink
