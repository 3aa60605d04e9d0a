/-!
# Tables

Values under names, one under a name, in the order of the names. A table is a list of pairs whose names
rise (`Table.Ordered`); it is told by what stands under each name (`Table.eq_of_get?_eq`), so that a change
under one name can be taken back (`Table.insert_of_changed`, `Table.erase_of_changed`).
-/

namespace VaultLink

/-- Values under names, in the order of the names. -/
abbrev Table (α : Type) := List (String × α)

namespace Table

variable {α : Type} {name : String} {value old : α} {table : Table α}

/-- The value under a name. -/
def get? (name : String) : Table α → Option α
  | [] => none
  | (key, value) :: rest => if key = name then some value else get? name rest

/-- Puts a value under a name, at its place in the order. -/
def insert (name : String) (value : α) : Table α → Table α
  | [] => [(name, value)]
  | (key, old) :: rest =>
    if key = name then (name, value) :: rest
    else if name < key then (name, value) :: (key, old) :: rest
    else (key, old) :: insert name value rest

/-- Takes the value under a name away. -/
def erase (name : String) (table : Table α) : Table α :=
  table.filter fun entry => entry.1 ≠ name

/-- The table of a list, a later value in place of an earlier one of the same name. -/
def ofList (entries : List (String × α)) : Table α :=
  entries.foldl (fun table entry => table.insert entry.1 entry.2) []

/-- The names stand in strictly rising order. -/
def Ordered (table : Table α) : Prop := table.Pairwise fun a b => a.1 < b.1

/-! ## What stands under a name -/

theorem get?_eq_none_iff : table.get? name = none ↔ name ∉ List.map (·.1) table := by
  induction table with
  | nil => simp [get?]
  | cons entry rest ih =>
    obtain ⟨key, value⟩ := entry
    rw [get?, List.map_cons, List.mem_cons, not_or, ← ih]
    split
    · rename_i h
      simp [h]
    · rename_i h
      exact ⟨fun hn => ⟨Ne.symm h, hn⟩, And.right⟩

/-- If no name is there twice, a value is told by its name. -/
theorem get?_eq_some_iff (h : (List.map (·.1) table).Nodup) :
    table.get? name = some value ↔ (name, value) ∈ table := by
  induction table with
  | nil => simp [get?]
  | cons entry rest ih =>
    obtain ⟨key, old⟩ := entry
    obtain ⟨hkey, hrest⟩ := List.nodup_cons.1 h
    rw [get?, List.mem_cons, Prod.mk.injEq]
    by_cases hname : key = name
    · subst hname
      have hnot : (key, value) ∉ rest := fun hm => hkey (List.mem_map.2 ⟨_, hm, rfl⟩)
      simp only [if_true, Option.some.injEq, true_and, hnot, or_false, eq_comm]
    · simp only [if_neg hname, Ne.symm hname, false_and, false_or, ih hrest]

/-- The order of the entries does not matter if no name is there twice. -/
theorem get?_reverse (h : (List.map (·.1) table).Nodup) (name : String) :
    get? name table.reverse = get? name table := by
  have hreverse : (List.map (·.1) table.reverse).Nodup := by
    rw [List.map_reverse]
    exact List.pairwise_reverse.2 (h.imp Ne.symm)
  refine Option.ext fun value => ?_
  rw [get?_eq_some_iff h, get?_eq_some_iff hreverse, List.mem_reverse]

theorem get?_filter {p : String → Bool} (hp : p name = true) (table : Table α) :
    get? name (table.filter fun entry => p entry.1) = get? name table := by
  induction table with
  | nil => rfl
  | cons entry rest ih =>
    obtain ⟨key, value⟩ := entry
    rw [List.filter_cons]
    split
    · rw [get?, get?, ih]
    · rename_i hkey
      have hne : key ≠ name := by
        rintro rfl
        exact hkey hp
      rw [ih, get?, if_neg hne]

theorem get?_insert (name other : String) (value : α) (table : Table α) :
    (insert name value table).get? other = if name = other then some value else table.get? other := by
  induction table with
  | nil => rfl
  | cons entry rest ih =>
    obtain ⟨key, old⟩ := entry
    unfold insert
    by_cases hkey : key = name
    · rw [if_pos hkey, get?, get?, hkey]
      split <;> rfl
    · rw [if_neg hkey]
      split
      · rfl
      · rw [get?, get?, ih]
        by_cases ho : key = other
        · rw [if_pos ho, if_neg fun h => hkey (ho.trans h.symm), if_pos ho]
        · rw [if_neg ho, if_neg ho]

theorem get?_erase (name other : String) (table : Table α) :
    (erase name table).get? other = if name = other then none else table.get? other := by
  split
  · rename_i h
    subst h
    refine get?_eq_none_iff.2 fun hm => ?_
    obtain ⟨entry, hentry, hname⟩ := List.mem_map.1 hm
    exact of_decide_eq_true (List.mem_filter.1 hentry).2 hname
  · rename_i h
    exact get?_filter (p := fun key => decide (key ≠ name)) (decide_eq_true (Ne.symm h)) table

theorem mem_insert {entry : String × α} (h : entry ∈ insert name value table) :
    entry = (name, value) ∨ entry ∈ table := by
  induction table with
  | nil => exact .inl (List.mem_singleton.1 h)
  | cons first rest ih =>
    obtain ⟨key, old⟩ := first
    unfold insert at h
    split at h
    · exact (List.mem_cons.1 h).imp_right (List.mem_cons_of_mem _)
    · split at h
      · exact List.mem_cons.1 h
      · rcases List.mem_cons.1 h with rfl | h
        · exact .inr List.mem_cons_self
        · exact (ih h).imp_right (List.mem_cons_of_mem _)

/-! ## Order -/

/-- Putting a value under a name keeps the order of the names. -/
theorem ordered_insert (h : table.Ordered) : (table.insert name value).Ordered := by
  induction table with
  | nil => exact List.pairwise_singleton _ _
  | cons first rest ih =>
    obtain ⟨key, old⟩ := first
    obtain ⟨hfirst, hrest⟩ := List.pairwise_cons.1 h
    unfold insert
    split
    · rename_i hkey
      subst hkey
      exact List.pairwise_cons.2 ⟨hfirst, hrest⟩
    · rename_i hkey
      split
      · rename_i hlt
        refine List.pairwise_cons.2 ⟨fun entry hm => ?_, h⟩
        rcases List.mem_cons.1 hm with rfl | hm
        · exact hlt
        · exact String.lt_trans hlt (hfirst entry hm)
      · rename_i hlt
        refine List.pairwise_cons.2 ⟨fun entry hm => ?_, ih hrest⟩
        rcases mem_insert hm with rfl | hm
        · exact Decidable.byContradiction fun hnot =>
            hkey (String.le_antisymm (String.not_lt.1 hlt) (String.not_lt.1 hnot))
        · exact hfirst entry hm

theorem ordered_erase (h : table.Ordered) (name : String) : (table.erase name).Ordered :=
  List.Pairwise.filter _ h

theorem ordered_of_names (h : (List.map (·.1) table).Pairwise (· < ·)) : table.Ordered :=
  List.pairwise_map.1 h

theorem Ordered.nodup (h : table.Ordered) : (List.map (·.1) table).Nodup :=
  List.pairwise_map.2 (h.imp String.ne_of_lt)

theorem insert_of_forall_lt (h : ∀ entry ∈ table, entry.1 < name) :
    insert name value table = table ++ [(name, value)] := by
  induction table with
  | nil => rfl
  | cons entry rest ih =>
    obtain ⟨key, old⟩ := entry
    have hlt : key < name := h _ List.mem_cons_self
    have hrest := ih fun entry hm => h entry (List.mem_cons_of_mem _ hm)
    unfold insert
    rw [if_neg (String.ne_of_lt hlt), if_neg (String.lt_asymm hlt), hrest]
    rfl

theorem foldl_insert_of_ordered {seen : Table α} (h : Ordered (seen ++ table)) :
    table.foldl (fun table entry => table.insert entry.1 entry.2) seen = seen ++ table := by
  induction table generalizing seen with
  | nil => rw [List.append_nil, List.foldl_nil]
  | cons entry rest ih =>
    have hlt := (List.pairwise_append.1 h).2.2
    have hsnoc := List.append_assoc seen [entry] rest
    rw [List.foldl_cons, insert_of_forall_lt fun old ho => hlt old ho entry List.mem_cons_self]
    exact (ih (hsnoc ▸ h)).trans hsnoc

/-! ## Tables of lists -/

theorem ofList_append (entries : List (String × α)) (entry : String × α) :
    ofList (entries ++ [entry]) = (ofList entries).insert entry.1 entry.2 := by
  rw [ofList, List.foldl_append]
  rfl

theorem ordered_ofList (entries : List (String × α)) : (ofList entries).Ordered := by
  rw [← List.reverse_reverse entries]
  induction entries.reverse with
  | nil => exact List.Pairwise.nil
  | cons entry earlier ih =>
    rw [List.reverse_cons, ofList_append]
    exact ordered_insert ih

/-- Of several values under one name the last one is kept. -/
theorem get?_ofList (entries : List (String × α)) (name : String) :
    (ofList entries).get? name = entries.reverse.lookup name := by
  conv => lhs; rw [← List.reverse_reverse entries]
  induction entries.reverse with
  | nil => rfl
  | cons entry earlier ih =>
    rw [List.reverse_cons, ofList_append, get?_insert, ih, List.lookup_cons]
    by_cases h : entry.1 = name
    · rw [if_pos h, h, beq_self_eq_true]
    · rw [if_neg h, beq_false_of_ne (Ne.symm h)]

/-- A list whose names rise is a table as it stands. -/
theorem ofList_of_ordered (h : table.Ordered) : ofList table = table :=
  foldl_insert_of_ordered h

/-! ## Changes that are taken back -/

/-- A table is told by what stands under each name. -/
theorem eq_of_get?_eq {other : Table α} (h : table.Ordered) (ho : other.Ordered)
    (heq : ∀ name, table.get? name = other.get? name) : table = other := by
  have hmem (entry : String × α) : entry ∈ table ↔ entry ∈ other := by
    rw [← get?_eq_some_iff h.nodup, ← get?_eq_some_iff ho.nodup, heq]
  have hnodup {table : Table α} (h : table.Ordered) : table.Nodup :=
    h.imp fun hlt he => String.ne_of_lt hlt (congrArg Prod.fst he)
  have hperm := (List.perm_ext_iff_of_nodup (hnodup h) (hnodup ho)).2 hmem
  exact hperm.eq_of_pairwise (fun a b _ _ hab hba => absurd hba (String.lt_asymm hab)) h ho

/-- What stood under a name is put back, whatever was done there. -/
theorem insert_of_changed {changed : Table α} (h : table.Ordered) (hc : changed.Ordered)
    (hold : table.get? name = some old)
    (heq : ∀ other, name ≠ other → changed.get? other = table.get? other) :
    changed.insert name old = table := by
  refine eq_of_get?_eq (ordered_insert hc) h fun other => ?_
  rw [get?_insert]
  split
  · rename_i hname
    exact hname ▸ hold.symm
  · exact heq other ‹_›

/-- If nothing stood under a name, what was put there is taken away. -/
theorem erase_of_changed {changed : Table α} (h : table.Ordered) (hc : changed.Ordered)
    (hnone : table.get? name = none)
    (heq : ∀ other, name ≠ other → changed.get? other = table.get? other) :
    changed.erase name = table := by
  refine eq_of_get?_eq (ordered_erase hc name) h fun other => ?_
  rw [get?_erase]
  split
  · rename_i hname
    exact hname ▸ hnone.symm
  · exact heq other ‹_›

end Table

end VaultLink
