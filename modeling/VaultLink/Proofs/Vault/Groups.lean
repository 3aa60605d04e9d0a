import Mathlib.Data.List.Induction
import Mathlib.Data.List.Lex
import Mathlib.Data.List.Nodup
import VaultLink.Vault.Group

/-!
# Groups by their paths

A group has a place in its tree: which group it is at each level, from the top down. Places in
lexicographic order put a group before the groups inside it and these before the next group
(`Site.Before`), and that is the order in which the tree is walked (`pairwise_sitesOfList`). The groups by
path lose no path, show for each the last group that has it, and show every group where no two have one
path (`GroupTree.flatten_keeps`).

* `pathOf`: the path of a group, from the names of the groups down to it;
* `Group.lookup_reverse_entries`: the last entry for a path is that of the last group that has it.
-/

namespace VaultLink

namespace Group

/-! ## Paths -/

/-- Names with slashes between them; empty ones at the front count for nothing. -/
def pathOf (names : List String) : String := "/".intercalate (names.dropWhile (·.isEmpty))

theorem intercalate_concat {names : List String} (h : names ≠ []) (name : String) :
    "/".intercalate (names ++ [name]) = "/".intercalate names ++ "/" ++ name := by
  induction names with
  | nil => exact absurd rfl h
  | cons first rest ih =>
    rcases rest with _ | ⟨second, rest⟩
    · rfl
    · rw [List.cons_append, List.cons_append, String.intercalate_cons_cons, ← List.cons_append,
        ih (List.cons_ne_nil _ _), String.intercalate_cons_cons]
      simp only [String.append_assoc]

/-- A path is empty only if all names are. -/
theorem pathOf_eq_empty_iff (names : List String) :
    pathOf names = "" ↔ names.dropWhile (·.isEmpty) = [] := by
  refine ⟨fun h => ?_, fun h => by rw [pathOf, h, String.intercalate_nil]⟩
  have hhead := List.head?_dropWhile_not (·.isEmpty) names
  unfold pathOf at h
  generalize names.dropWhile (·.isEmpty) = kept at h hhead ⊢
  rcases kept with _ | ⟨first, rest⟩
  · rfl
  · have hfirst : first = "" := by
      rcases rest with _ | ⟨second, rest⟩
      · rwa [String.intercalate_singleton] at h
      · rw [String.intercalate_cons_cons, String.append_eq_empty_iff,
          String.append_eq_empty_iff] at h
        exact h.1.1
    simp [hfirst] at hhead

theorem pathOf_concat (names : List String) (name : String) :
    pathOf (names ++ [name]) = pathBelow (pathOf names) name := by
  unfold pathBelow
  rw [pathOf, List.dropWhile_append]
  by_cases h : names.dropWhile (·.isEmpty) = []
  · have hpath := (pathOf_eq_empty_iff names).2 h
    rw [h, hpath, List.isEmpty_nil, if_pos rfl, if_pos (String.isEmpty_iff.2 rfl)]
    by_cases hname : name.isEmpty
    · rw [List.dropWhile_cons_of_pos hname, List.dropWhile_nil, String.intercalate_nil,
        String.isEmpty_iff.1 hname]
    · rw [List.dropWhile_cons_of_neg hname, String.intercalate_singleton]
  · have hpath : ¬ (pathOf names).isEmpty = true := fun he =>
      h ((pathOf_eq_empty_iff names).1 (String.isEmpty_iff.1 he))
    rw [if_neg (by rwa [List.isEmpty_iff]), if_neg hpath, intercalate_concat h, pathOf]

/-- The path that a walk from the top builds is that of the names on its way. -/
theorem foldl_pathBelow (names : List String) : names.foldl pathBelow "" = pathOf names := by
  induction names using List.reverseRecOn with
  | nil => rfl
  | append_singleton names name ih =>
    rw [List.foldl_append, ih, pathOf_concat]
    rfl

/-! ## Places -/

/-- A group where it stands in a tree. -/
structure Site where
  /-- Which group it is at each level from the top down, counted from zero. -/
  place : List Nat
  /-- The names of the groups down to it, its own last. -/
  names : List String
  group : Group

namespace Site

/-- The site, seen from the group around the outermost one. -/
def below (i : Nat) (name : String) (site : Site) : Site :=
  ⟨i :: site.place, name :: site.names, site.group⟩

/-- The site, if one more group stands before the outermost one. -/
def later (site : Site) : Site := { site with place := site.place.modifyHead (· + 1) }

/-- The path of the group. -/
def path (site : Site) : String := pathOf site.names

/-- The group among the groups by path. -/
def entry (site : Site) : String × String := (site.path, site.group.uuid)

/-- The site is that of one of the groups or of a group inside one. -/
inductive In : List Group → Site → Prop
  | top {groups : List Group} {i : Nat} {group : Group} : groups[i]? = some group →
    In groups ⟨[i], [group.name], group⟩
  | inside {groups : List Group} {i : Nat} {group : Group} {site : Site} :
    groups[i]? = some group → In group.children site → In groups (site.below i group.name)

/-- A group comes before those inside it, and with them before the groups after it. -/
def Before (a b : Site) : Prop := List.Lex (· < ·) a.place b.place

/-- The site is that of the last group with a path. -/
structure IsLast (groups : List Group) (path : String) (site : Site) : Prop where
  isIn : site.In groups
  path_eq : site.path = path
  last : ∀ other : Site, other.In groups → other.path = path → other = site ∨ other.Before site

theorem Before.asymm {a b : Site} (h : a.Before b) : ¬ b.Before a :=
  Std.Asymm.asymm (r := List.Lex (· < ·)) _ _ h

theorem Before.ne {a b : Site} (h : a.Before b) : a ≠ b := by
  rintro rfl
  exact h.asymm h

theorem Before.later {a b : Site} (h : a.Before b) : a.later.Before b.later := by
  obtain ⟨place, names, group⟩ := a
  obtain ⟨place', names', group'⟩ := b
  unfold Before at h
  cases h with
  | nil => exact .nil
  | rel h => exact .rel (Nat.succ_lt_succ h)
  | cons h => exact .cons h

theorem In.exists_place {groups : List Group} {site : Site} (h : site.In groups) :
    ∃ i place, site.place = i :: place := by
  cases h with
  | top => exact ⟨_, _, rfl⟩
  | inside => exact ⟨_, _, rfl⟩

/-- A group among others is the first of them, or inside it, or among those after it. -/
theorem in_cons {group : Group} {groups : List Group} {site : Site} :
    site.In (group :: groups) ↔ site = ⟨[0], [group.name], group⟩ ∨
      (∃ inner : Site, inner.In group.children ∧ inner.below 0 group.name = site) ∨
      ∃ other : Site, other.In groups ∧ other.later = site := by
  constructor
  · intro h
    cases h with
    | @top _ i _ h =>
      cases i with
      | zero =>
        obtain rfl := Option.some.inj h
        exact .inl rfl
      | succ i => exact .inr (.inr ⟨_, .top h, rfl⟩)
    | @inside _ i _ inner h hin =>
      cases i with
      | zero =>
        obtain rfl := Option.some.inj h
        exact .inr (.inl ⟨inner, hin, rfl⟩)
      | succ i => exact .inr (.inr ⟨_, .inside h hin, rfl⟩)
  · rintro (rfl | ⟨inner, hin, rfl⟩ | ⟨other, hin, rfl⟩)
    · exact .top rfl
    · exact .inside rfl hin
    · cases hin with
      | @top _ i group h => exact @In.top (_ :: groups) (i + 1) group h
      | @inside _ i group site h hin => exact @In.inside (_ :: groups) (i + 1) group site h hin

end Site

mutual

/-- The sites of a group, which stands first, and of the groups inside it, in the order of a walk. -/
def sites : Group → List Site
  | mk name uuid children =>
    ⟨[0], [name], mk name uuid children⟩ :: (sitesOfList children).map (Site.below 0 name)

/-- The sites of groups and of the groups inside them, in the order of a walk. -/
def sitesOfList : List Group → List Site
  | [] => []
  | group :: groups => sites group ++ (sitesOfList groups).map Site.later

end

/-- What holds of groups if it holds of those inside the first one and of those after it. -/
theorem forestInduction {motive : List Group → Prop} (nil : motive [])
    (cons : ∀ group groups, motive group.children → motive groups → motive (group :: groups)) :
    ∀ groups, motive groups
  | [] => nil
  | mk name uuid children :: groups =>
    cons (mk name uuid children) groups (forestInduction nil cons children)
      (forestInduction nil cons groups)

theorem sitesOfList_cons (group : Group) (groups : List Group) :
    sitesOfList (group :: groups) =
      ⟨[0], [group.name], group⟩ :: ((sitesOfList group.children).map (Site.below 0 group.name) ++
        (sitesOfList groups).map Site.later) := by
  cases group with
  | mk name uuid children => rfl

theorem pathsOfList_cons (path : String) (group : Group) (groups : List Group) :
    pathsOfList path (group :: groups) =
      (pathBelow path group.name, group.uuid) ::
        (pathsOfList (pathBelow path group.name) group.children ++ pathsOfList path groups) := by
  cases group with
  | mk name uuid children => rfl

theorem mem_sitesOfList {groups : List Group} {site : Site} :
    site ∈ sitesOfList groups ↔ site.In groups := by
  induction groups using forestInduction generalizing site with
  | nil =>
    constructor
    · intro h
      cases h
    · intro h
      cases h <;> rename_i h <;> cases h
  | cons group groups ihInner ihLater =>
    rw [sitesOfList_cons, List.mem_cons, List.mem_append, List.mem_map, List.mem_map, Site.in_cons]
    simp only [ihInner, ihLater]

/-- A walk meets the groups in the order of their places. -/
theorem pairwise_sitesOfList (groups : List Group) :
    (sitesOfList groups).Pairwise Site.Before := by
  induction groups using forestInduction with
  | nil => exact .nil
  | cons group groups ihInner ihLater =>
    rw [sitesOfList_cons, List.pairwise_cons, List.pairwise_append, List.pairwise_map,
      List.pairwise_map]
    refine ⟨fun site hs => ?_, ihInner.imp .cons, ihLater.imp .later, fun site hs other ho => ?_⟩
    · rcases List.mem_append.1 hs with hs | hs
      · obtain ⟨inner, hin, rfl⟩ := List.mem_map.1 hs
        obtain ⟨i, place, hp⟩ := (mem_sitesOfList.1 hin).exists_place
        rw [Site.Before, Site.below, hp]
        exact .cons .nil
      · obtain ⟨other, hin, rfl⟩ := List.mem_map.1 hs
        obtain ⟨i, place, hp⟩ := (mem_sitesOfList.1 hin).exists_place
        rw [Site.Before, Site.later, hp]
        exact .rel (Nat.succ_pos i)
    · obtain ⟨inner, -, rfl⟩ := List.mem_map.1 hs
      obtain ⟨other, hin, rfl⟩ := List.mem_map.1 ho
      obtain ⟨i, place, hp⟩ := (mem_sitesOfList.1 hin).exists_place
      rw [Site.Before, Site.later, hp]
      exact .rel (Nat.succ_pos i)

theorem nodup_sitesOfList (groups : List Group) : (sitesOfList groups).Nodup :=
  (pairwise_sitesOfList groups).imp Site.Before.ne

/-- Whether no two groups have one path can be seen from the paths of a walk. -/
theorem Site.eq_of_path_eq {groups : List Group} (h : ((sitesOfList groups).map Site.path).Nodup)
    {a b : Site} (ha : a.In groups) (hb : b.In groups) (he : a.path = b.path) : a = b :=
  List.inj_on_of_nodup_map h (mem_sitesOfList.2 ha) (mem_sitesOfList.2 hb) he

/-- A walk below a path finds the groups with the names on the way to them. -/
theorem pathsOfList_eq_map (path : String) (groups : List Group) :
    pathsOfList path groups = (sitesOfList groups).map fun site =>
      (site.names.foldl pathBelow path, site.group.uuid) := by
  induction groups using forestInduction generalizing path with
  | nil => rfl
  | cons group groups ihInner ihLater =>
    rw [pathsOfList_cons, sitesOfList_cons, ihInner, ihLater, List.map_cons, List.map_append,
      List.map_map, List.map_map]
    rfl

/-- The entries of a walk from the top. -/
theorem pathsOfList_eq_map_entry (groups : List Group) :
    pathsOfList "" groups = (sitesOfList groups).map Site.entry := by
  rw [pathsOfList_eq_map]
  simp only [foldl_pathBelow]
  rfl

/-- Of the groups with a path, the last one in the order of their places is the last one of a walk. -/
theorem lookup_reverse_entries (groups : List Group) (path uuid : String) :
    ((sitesOfList groups).map Site.entry).reverse.lookup path = some uuid ↔
      ∃ site, Site.IsLast groups path site ∧ site.group.uuid = uuid := by
  have horder := pairwise_sitesOfList groups
  constructor
  · intro h
    obtain ⟨after, before, he, hafter⟩ := List.lookup_eq_some_iff.1 h
    rw [List.reverse_eq_iff, List.reverse_append, List.reverse_cons, List.append_assoc] at he
    obtain ⟨earlier, rest, hsites, hearlier, hrest⟩ := List.map_eq_append_iff.1 he
    obtain ⟨site, later, rfl, hsite, hlater⟩ := List.map_eq_cons_iff.1 hrest
    rw [hsites] at horder
    have hin {other : Site} : other.In groups ↔ other ∈ earlier ++ site :: later := by
      rw [← mem_sitesOfList, hsites]
    refine ⟨site, ⟨hin.2 (List.mem_append_right _ List.mem_cons_self), congrArg Prod.fst hsite,
      fun other ho hp => ?_⟩, congrArg Prod.snd hsite⟩
    rcases List.mem_append.1 (hin.1 ho) with ho | ho
    · exact .inr ((List.pairwise_append.1 horder).2.2 other ho site List.mem_cons_self)
    · rcases List.mem_cons.1 ho with rfl | ho
      · exact .inl rfl
      · -- An entry with the path that comes after the last one.
        have hmem : other.entry ∈ after := by
          rw [← List.mem_reverse]
          change later.map Site.entry = after.reverse at hlater
          exact hlater ▸ List.mem_map_of_mem ho
        have hne := hafter _ hmem
        rw [Site.entry, hp] at hne
        simp at hne
  · rintro ⟨site, ⟨hin, hp, hlast⟩, rfl⟩
    obtain ⟨earlier, later, hsites⟩ := List.append_of_mem (mem_sitesOfList.2 hin)
    rw [List.lookup_eq_some_iff, hsites]
    refine ⟨(later.map Site.entry).reverse, (earlier.map Site.entry).reverse, ?_, fun entry he => ?_⟩
    · rw [List.map_append, List.map_cons, List.reverse_append, List.reverse_cons, List.append_assoc,
        Site.entry, hp]
      rfl
    · obtain ⟨other, ho, rfl⟩ := List.mem_map.1 (List.mem_reverse.1 he)
      rw [hsites] at horder
      have hbefore := (List.pairwise_cons.1 (List.pairwise_append.1 horder).2.1).1 other ho
      rw [bne_iff_ne]
      intro hsame
      have hother : other.In groups := by
        rw [← mem_sitesOfList, hsites]
        exact List.mem_append_right _ (List.mem_cons_of_mem _ ho)
      rcases hlast other hother hsame.symm with rfl | h
      · exact hbefore.ne rfl
      · exact hbefore.asymm h

end Group

namespace GroupTree

open VaultLink.Group (Site sitesOfList)

/-- A path stands for the last group that has it. -/
theorem find?_eq_some_iff (tree : GroupTree) (path uuid : String) :
    tree.find? path = some uuid ↔
      ∃ site, Site.IsLast tree.groups path site ∧ site.group.uuid = uuid := by
  rw [find?, flatten, Table.get?_ofList, Group.pathsOfList_eq_map_entry, Group.lookup_reverse_entries]

/-- A path that stands for nothing is the path of no group. -/
theorem find?_eq_none_iff (tree : GroupTree) (path : String) :
    tree.find? path = none ↔ ∀ site : Site, site.In tree.groups → site.path ≠ path := by
  rw [find?, flatten, Table.get?_ofList, Group.pathsOfList_eq_map_entry, List.lookup_eq_none_iff]
  simp only [List.mem_reverse, List.forall_mem_map, Group.mem_sitesOfList, bne_iff_ne, Site.entry]
  exact forall₂_congr fun site _ => ne_comm

/-- The groups by path lose no path and resolve clashes in one way: they have an entry for each path that
a group of the tree has and for no other, with the identifier of the last group that has it, which is the
one found at the path. If no two groups have one path, there is one entry for each group. -/
theorem flatten_keeps (tree : GroupTree) :
    (tree.flatten.map Prod.fst).Nodup ∧
    (∀ path, path ∈ tree.flatten.map Prod.fst ↔ ∃ site : Site, site.In tree.groups ∧ site.path = path) ∧
    (∀ path uuid, (path, uuid) ∈ tree.flatten ↔
      ∃ site, Site.IsLast tree.groups path site ∧ site.group.uuid = uuid) ∧
    (∀ path uuid, tree.find? path = some uuid ↔ (path, uuid) ∈ tree.flatten) ∧
    (∀ path, tree.find? path = none ↔ ∀ site : Site, site.In tree.groups → site.path ≠ path) ∧
    ((∀ a b : Site, a.In tree.groups → b.In tree.groups → a.path = b.path → a = b) →
      ∃ all : List Site, all.Nodup ∧ (∀ site, site ∈ all ↔ site.In tree.groups) ∧
        tree.flatten.Perm (all.map Site.entry)) := by
  have hnodup : (tree.flatten.map Prod.fst).Nodup := (Table.ordered_ofList _).nodup
  have hmem (path uuid : String) : tree.find? path = some uuid ↔ (path, uuid) ∈ tree.flatten :=
    Table.get?_eq_some_iff hnodup
  have hkey (path : String) : path ∈ tree.flatten.map Prod.fst ↔ tree.find? path ≠ none := by
    rw [List.mem_map, Option.ne_none_iff_exists']
    simp only [hmem, Prod.exists, exists_and_right, exists_eq_right]
  refine ⟨?_, fun path => ?_, fun path uuid => ?_, hmem, find?_eq_none_iff tree, fun hdistinct => ?_⟩
  · exact hnodup
  · rw [hkey, ne_eq, find?_eq_none_iff]
    simp only [not_forall, not_not, exists_prop]
  · rw [← hmem, find?_eq_some_iff]
  · have hall (site : Site) : site ∈ sitesOfList tree.groups ↔ site.In tree.groups :=
      Group.mem_sitesOfList
    have hsites := Group.nodup_sitesOfList tree.groups
    refine ⟨sitesOfList tree.groups, hsites, hall, ?_⟩
    refine (List.perm_ext_iff_of_nodup hnodup.of_map (hsites.map_on fun a ha b hb he => ?_)).2
      fun entry => ?_
    · exact hdistinct a b ((hall a).1 ha) ((hall b).1 hb) (congrArg Prod.fst he)
    · obtain ⟨path, uuid⟩ := entry
      rw [← hmem, find?_eq_some_iff, List.mem_map]
      constructor
      · rintro ⟨site, ⟨hin, hp, -⟩, rfl⟩
        exact ⟨site, (hall site).2 hin, by rw [Site.entry, hp]⟩
      · rintro ⟨site, hs, he⟩
        have hin := (hall site).1 hs
        exact ⟨site, ⟨hin, congrArg Prod.fst he, fun other ho hp =>
          .inl (hdistinct other site ho hin (hp.trans (congrArg Prod.fst he).symm))⟩,
          congrArg Prod.snd he⟩

/-- Groups without names and with a slash in their names, no two of which have one path. -/
def unclashing : GroupTree where
  groups := [.mk "" "u" [.mk "a" "v" [.mk "" "w" []]], .mk "b/c" "x" [], .mk "b" "y" [.mk "" "z" []]]

theorem flatten_keeps_unclashing :
    (∀ a b : Site, a.In unclashing.groups → b.In unclashing.groups → a.path = b.path → a = b) ∧
    (sitesOfList unclashing.groups).map Site.path = ["", "a", "a/", "b/c", "b", "b/"] ∧
    ∃ all : List Site, all.Nodup ∧ (∀ site, site ∈ all ↔ site.In unclashing.groups) ∧
      unclashing.flatten.Perm (all.map Site.entry) := by
  have hpaths : (sitesOfList unclashing.groups).map Site.path = ["", "a", "a/", "b/c", "b", "b/"] := by
    decide
  have hdistinct : ∀ a b : Site, a.In unclashing.groups → b.In unclashing.groups → a.path = b.path →
      a = b := by
    intro a b ha hb
    exact Site.eq_of_path_eq (by rw [hpaths]; decide) ha hb
  exact ⟨hdistinct, hpaths, (flatten_keeps unclashing).2.2.2.2.2 hdistinct⟩

-- A name with a slash can be the path of a group further down, and the later of the two is kept.
example : GroupTree.flatten ⟨[.mk "" "u" [.mk "a/b" "v" []], .mk "a" "w" [.mk "b" "x" []]]⟩ =
    [("", "u"), ("a", "w"), ("a/b", "x")] := by decide

end GroupTree

end VaultLink
