import VaultLink.Files.Path

/-!
# Where a path leads

A path that never goes up leads to a place that can be told from its text: where it starts and the
names in it that count (`FilePath.place`). The paths above it start where it does and have no names but
some of its first ones (`FilePath.place_prefix_of_mem_ancestors`), and with another last name it leads to
another place in the same directory (`FilePath.place_withFileName`).
-/

namespace VaultLink.FilePath

/-! ## The parts of a text -/

theorem splitSlash_ne_nil (cs : List Char) : splitSlash cs ≠ [] := by
  cases cs with
  | nil => simp [splitSlash]
  | cons c cs =>
    rw [splitSlash]
    split
    · simp
    · split <;> simp

theorem splitSlash_append (as bs : List Char) :
    splitSlash (as ++ '/' :: bs) = splitSlash as ++ splitSlash bs := by
  induction as with
  | nil => simp [splitSlash]
  | cons c as ih =>
    rw [List.cons_append, splitSlash, ih, splitSlash]
    split
    · rfl
    · obtain ⟨part, parts, h⟩ := List.exists_cons_of_ne_nil (splitSlash_ne_nil as)
      rw [h]
      rfl

theorem splitSlash_of_not_mem {cs : List Char} (h : '/' ∉ cs) : splitSlash cs = [cs] := by
  induction cs with
  | nil => rfl
  | cons c cs ih =>
    obtain ⟨hc, hcs⟩ := not_or.1 ((not_congr List.mem_cons).1 h)
    rw [splitSlash, if_neg (Ne.symm hc), ih hcs]

theorem not_mem_of_mem_splitSlash {cs part : List Char} (h : part ∈ splitSlash cs) : '/' ∉ part := by
  induction cs generalizing part with
  | nil =>
    obtain rfl : part = [] := by simpa [splitSlash] using h
    exact List.not_mem_nil
  | cons c cs ih =>
    rw [splitSlash] at h
    split at h
    · rcases List.mem_cons.1 h with rfl | h
      · exact List.not_mem_nil
      · exact ih h
    · rename_i hc
      obtain ⟨first, parts, hs⟩ := List.exists_cons_of_ne_nil (splitSlash_ne_nil cs)
      rw [hs] at h ih
      rcases List.mem_cons.1 h with rfl | h
      · exact List.not_mem_cons_of_ne_of_not_mem (Ne.symm hc) (ih List.mem_cons_self)
      · exact ih (List.mem_cons_of_mem _ h)

/-- A text without a slash. -/
def IsName (name : String) : Prop := '/' ∉ name.toList

theorem isName_of_mem_split {path part : String} (h : part ∈ split path) : IsName part := by
  obtain ⟨cs, hcs, rfl⟩ := List.mem_map.1 h
  rw [IsName, String.toList_ofList]
  exact not_mem_of_mem_splitSlash hcs

theorem split_append (a b : String) : split (a ++ "/" ++ b) = split a ++ split b := by
  rw [split, String.toList_append, String.toList_append, List.append_assoc]
  show (splitSlash (a.toList ++ '/' :: b.toList)).map _ = _
  rw [splitSlash_append, List.map_append]
  rfl

theorem split_of_isName {name : String} (h : IsName name) : split name = [name] := by
  rw [split, splitSlash_of_not_mem h, List.map_singleton, String.ofList_toList]

/-- Names between slashes are the parts of their text. -/
theorem split_intercalate {parts : List String} (h : ∀ part ∈ parts, IsName part) (hne : parts ≠ []) :
    split ("/".intercalate parts) = parts := by
  induction parts with
  | nil => exact absurd rfl hne
  | cons part parts ih =>
    obtain ⟨hpart, hparts⟩ := List.forall_mem_cons.1 h
    cases parts with
    | nil => rw [String.intercalate_singleton, split_of_isName hpart]
    | cons next parts =>
      rw [String.intercalate_cons_cons, split_append, split_of_isName hpart,
        ih hparts (List.cons_ne_nil _ _)]
      rfl

/-! ## The parts that count -/

/-- The parts of a path that count. -/
def counted (parts : List String) : List String := parts.filter fun part => !isIdle part

/-- The names of a path that count. -/
def steps (path : String) : List String := counted (split path)

theorem counted_append (as bs : List String) : counted (as ++ bs) = counted as ++ counted bs :=
  List.filter_append as bs

theorem counted_singleton {name : String} (h : isIdle name = false) : counted [name] = [name] := by
  simp [counted, h]

theorem counted_cons {name : String} (h₀ : name ≠ "") (h₁ : name ≠ ".") (names : List String) :
    counted (name :: names) = name :: counted names := by
  simp [counted, isIdle, h₀, h₁]

/-- Only parts that do not count are cut off. -/
theorem exists_eq_trim_append (parts : List String) :
    ∃ idles, parts = trim parts ++ idles ∧ counted idles = [] := by
  cases parts with
  | nil => exact ⟨[], rfl, rfl⟩
  | cons first rest =>
    refine ⟨(rest.reverse.takeWhile isIdle).reverse, ?_, ?_⟩
    · rw [trim, List.cons_append, ← List.reverse_append, List.takeWhile_append_dropWhile,
        List.reverse_reverse]
    · refine List.filter_eq_nil_iff.2 fun part hpart => ?_
      have hidle := List.all_eq_true.1 List.all_takeWhile part (List.mem_reverse.1 hpart)
      simp [hidle]

theorem counted_trim (parts : List String) : counted (trim parts) = counted parts := by
  obtain ⟨idles, hparts, hidles⟩ := exists_eq_trim_append parts
  have hcounted := congrArg counted hparts
  rw [counted_append, hidles, List.append_nil] at hcounted
  exact hcounted.symm

theorem mem_of_mem_trim {part : String} {parts : List String} (h : part ∈ trim parts) :
    part ∈ parts := by
  obtain ⟨idles, hparts, -⟩ := exists_eq_trim_append parts
  rw [hparts]
  exact List.mem_append_left _ h

/-- The names of a path are the parts of its text that count. -/
theorem steps_text {parts : List String} (h : ∀ part ∈ parts, IsName part) :
    steps (text parts) = counted parts := by
  unfold text
  split
  · decide
  · by_cases hne : parts = []
    · subst hne
      decide
    · rw [steps, split_intercalate h hne]

/-! ## Where a path starts -/

/-- Where a path starts: at the root or in the current directory. -/
def start (path : String) : Place := if path.startsWith "/" then [""] else []

theorem startsWith_slash_iff {path : String} :
    path.startsWith "/" = true ↔ path.toList.head? = some '/' := by
  rw [String.startsWith_string_iff]
  show ['/'] <+: path.toList ↔ _
  rcases path.toList with _ | ⟨c, cs⟩
  · simp
  · simp [List.cons_prefix_cons, eq_comm]

/-- Where a path starts shows in its first character. -/
theorem start_eq_of_head? {a b : String} (h : a.toList.head? = b.toList.head?) : start a = start b := by
  have hiff : a.startsWith "/" = b.startsWith "/" := by
    rw [Bool.eq_iff_iff, startsWith_slash_iff, startsWith_slash_iff, h]
  rw [start, start, hiff]

/-- How a path starts shows in its parts. -/
theorem head?_of_split {path first : String} {rest : List String} (h : split path = first :: rest) :
    path.toList.head? =
      if first = "" then if rest = [] then none else some '/' else first.toList.head? := by
  rw [split] at h
  generalize path.toList = cs at h ⊢
  rcases cs with _ | ⟨c, cs⟩
  · cases h
    rfl
  rw [splitSlash] at h
  split at h
  · rename_i hc
    obtain ⟨rfl, rfl⟩ := List.cons.inj h
    have hrest : (splitSlash cs).map String.ofList ≠ [] :=
      (not_congr List.map_eq_nil_iff).2 (splitSlash_ne_nil cs)
    rw [hc, if_pos rfl, if_neg hrest]
    rfl
  · obtain ⟨part, parts, hs⟩ := List.exists_cons_of_ne_nil (splitSlash_ne_nil cs)
    rw [hs] at h
    obtain ⟨rfl, -⟩ := List.cons.inj h
    have hne : String.ofList (c :: part) ≠ "" := by simp
    rw [if_neg hne, String.toList_ofList]
    rfl

/-- The text of parts starts at the root if the first of them is empty. -/
theorem head?_text {first : String} {rest : List String} (h : ∀ part ∈ first :: rest, IsName part) :
    (text (first :: rest)).toList.head? = if first = "" then some '/' else first.toList.head? := by
  by_cases hroot : first :: rest = [""]
  · obtain ⟨rfl, rfl⟩ := List.cons.inj hroot
    rfl
  have htext : text (first :: rest) = "/".intercalate (first :: rest) := by
    unfold text
    split
    · exact absurd ‹_› hroot
    · rfl
  rw [htext, head?_of_split (split_intercalate h (List.cons_ne_nil _ _))]
  by_cases hfirst : first = ""
  · subst hfirst
    have hrest : rest ≠ [] := fun hrest => hroot (hrest ▸ rfl)
    rw [if_pos rfl, if_pos rfl, if_neg hrest]
  · rw [if_neg hfirst, if_neg hfirst]

theorem start_of_name {path : String} {first : String} {rest : List String}
    (h : split path = first :: rest) (hne : first ≠ "") : start path = [] := by
  have hname : IsName first := isName_of_mem_split (h ▸ List.mem_cons_self)
  have hhead : path.toList.head? ≠ some '/' := by
    rw [head?_of_split h, if_neg hne]
    exact fun hfirst => hname (List.mem_of_mem_head? hfirst)
  rw [start, if_neg ((not_congr startsWith_slash_iff).2 hhead)]

/-! ## The directory that a path leads from -/

theorem parent?_eq_some {path above : String} (h : parent? path = some above) :
    ∃ init last, trim (split path) = init ++ [last] ∧ init ++ [last] ≠ [""] ∧
      above = text (trim init) := by
  unfold parent? at h
  split at h
  · cases h
  · cases h
  · rename_i parts hnil hroot
    cases h
    have hne : trim (split path) ≠ [] := hnil
    have hconcat := List.dropLast_concat_getLast hne
    exact ⟨_, _, hconcat.symm, by rwa [hconcat], rfl⟩

theorem isName_of_mem_trim {path part : String} {init : List String} {last : String}
    (htrim : trim (split path) = init ++ [last]) (h : part ∈ trim init) : IsName part := by
  have hmem : part ∈ trim (split path) := by
    rw [htrim]
    exact List.mem_append_left _ (mem_of_mem_trim h)
  exact isName_of_mem_split (mem_of_mem_trim hmem)

/-- A path has the names of the directory that it leads from, and its own last one if that counts. -/
theorem steps_of_parent? {path above : String} (h : parent? path = some above) :
    ∃ last, (trim (split path)).getLast? = some last ∧ steps path = steps above ++ counted [last] := by
  obtain ⟨init, last, htrim, -, rfl⟩ := parent?_eq_some h
  refine ⟨last, by rw [htrim, List.getLast?_concat], ?_⟩
  rw [steps_text fun _ hpart => isName_of_mem_trim htrim hpart, counted_trim, ← counted_append,
    ← htrim, counted_trim, steps]

theorem start_of_parent? {path above : String} (h : parent? path = some above) :
    start above = start path := by
  obtain ⟨init, last, htrim, hroot, rfl⟩ := parent?_eq_some h
  obtain ⟨idles, hsplit, -⟩ := exists_eq_trim_append (split path)
  rw [htrim] at hsplit
  cases init with
  | nil =>
    have hne : last ≠ "" := by
      rintro rfl
      exact hroot rfl
    rw [start_of_name hsplit hne]
    decide
  | cons first more =>
    obtain ⟨kept, hkept⟩ : ∃ kept, trim (first :: more) = first :: kept := ⟨_, rfl⟩
    have hnames : ∀ part ∈ first :: kept, IsName part := fun _ hpart =>
      isName_of_mem_trim htrim (hkept ▸ hpart)
    refine start_eq_of_head? ?_
    rw [hkept, head?_text hnames, head?_of_split hsplit]
    simp

/-- The place to which a path leads that does not go up. -/
def place (path : String) : Place := start path ++ steps path

/-- Going up counts. -/
theorem up_mem_steps_iff {path : String} : ".." ∈ steps path ↔ ".." ∈ split path := by
  rw [steps, counted, List.mem_filter]
  exact and_iff_left (by decide)

theorem mem_climb {steps : Nat} {path above : String} (h : above ∈ climb steps path) :
    start above = start path ∧ FilePath.steps above <+: FilePath.steps path := by
  induction steps generalizing path with
  | zero => cases h
  | succ steps ih =>
    rw [climb] at h
    rcases hp : parent? path with _ | next <;> rw [hp] at h
    · cases h
    obtain ⟨last, -, hsteps⟩ := steps_of_parent? hp
    rcases List.mem_cons.1 h with rfl | h
    · exact ⟨rfl, List.prefix_rfl⟩
    · obtain ⟨hstart, hprefix⟩ := ih h
      exact ⟨hstart.trans (start_of_parent? hp), hprefix.trans (hsteps ▸ List.prefix_append _ _)⟩

/-- The directories above a path, itself included, are on the way to its place. -/
theorem place_prefix_of_mem_ancestors {path above : String} (h : above ∈ ancestors path) :
    place above <+: place path := by
  obtain ⟨hstart, hprefix⟩ := mem_climb h
  rw [place, place, hstart]
  exact (List.prefix_append_right_inj _).2 hprefix

/-- They do not go up where the path does not. -/
theorem up_notMem_of_mem_ancestors {path above : String} (h : above ∈ ancestors path)
    (hup : ".." ∉ steps path) : ".." ∉ steps above :=
  fun hmem => hup ((mem_climb h).2.subset hmem)

/-! ## The last name -/

/-- A path that ends in a name leads to it from another path. -/
theorem exists_parent_of_fileName? {path name : String} (h : fileName? path = some name) :
    ∃ above, parent? path = some above ∧ start above = start path ∧
      steps path = steps above ++ [name] ∧ IsName name ∧ isIdle name = false := by
  obtain ⟨hlast, hname⟩ := Option.filter_eq_some_iff.1 h
  have hidle : isIdle name = false := by
    simp only [Bool.not_eq_true', Bool.or_eq_false_iff] at hname
    exact hname.1
  have hmem : name ∈ trim (split path) := List.mem_of_getLast? hlast
  obtain ⟨above, hparent⟩ : ∃ above, parent? path = some above := by
    unfold parent?
    split
    · rename_i hnil
      rw [hnil] at hmem
      cases hmem
    · rename_i hroot
      rw [hroot, List.mem_singleton] at hmem
      rw [hmem] at hidle
      exact absurd hidle (by decide)
    · exact ⟨_, rfl⟩
  obtain ⟨last, hlast', hsteps⟩ := steps_of_parent? hparent
  cases hlast.symm.trans hlast'
  refine ⟨above, hparent, start_of_parent? hparent, ?_, isName_of_mem_split (mem_of_mem_trim hmem), hidle⟩
  rw [hsteps, counted_singleton hidle]

theorem endsWith_slash_iff {path : String} :
    path.endsWith "/" = true ↔ ∃ front, path = front ++ "/" := by
  have hsuffix := @String.Slice.endsWith_string_iff "/" path.toSlice
  rw [String.copy_toSlice] at hsuffix
  refine Iff.trans hsuffix ⟨?_, ?_⟩
  · rintro ⟨cs, hcs⟩
    exact ⟨String.ofList cs, String.toList_inj.1 (by simp [← hcs])⟩
  · rintro ⟨front, rfl⟩
    exact ⟨front.toList, by simp⟩

theorem not_startsWith_slash {name : String} (h : IsName name) : name.startsWith "/" = false := by
  rw [← Bool.not_eq_true, startsWith_slash_iff]
  exact fun hhead => h (List.mem_of_mem_head? hhead)

theorem not_endsWith_slash {name : String} (hn : IsName name) (hne : name ≠ "") (front : String) :
    (front ++ name).endsWith "/" = false := by
  rw [← Bool.not_eq_true, endsWith_slash_iff]
  rintro ⟨path, h⟩
  obtain ⟨init, last, hlast⟩ : ∃ init last, name.toList = init ++ [last] := by
    rcases List.eq_nil_or_concat name.toList with hnil | ⟨init, last, h⟩
    · exact absurd (String.toList_inj.1 hnil) hne
    · exact ⟨init, last, by rw [h, List.concat_eq_append]⟩
  have hchars := congrArg String.toList h
  rw [String.toList_append, String.toList_append, hlast, ← List.append_assoc] at hchars
  obtain ⟨-, hslash⟩ := List.append_inj' hchars rfl
  rw [IsName, hlast, hslash] at hn
  exact hn (List.mem_append_right _ (by decide))

/-- A name behind a directory. -/
theorem steps_join {directory name : String} (hn : IsName name) (hi : isIdle name = false) :
    steps (join directory name) = steps directory ++ [name] := by
  have hname := counted_singleton hi
  rw [join, not_startsWith_slash hn, if_neg Bool.false_ne_true]
  split
  · rename_i h
    rw [Bool.or_eq_true, String.isEmpty_iff, endsWith_slash_iff] at h
    rcases h with rfl | ⟨front, rfl⟩
    · rw [String.empty_append, steps, split_of_isName hn, hname]
      rfl
    · have hfront : split (front ++ "/") = split front ++ [""] := by
        have := split_append front ""
        rwa [String.append_empty] at this
      rw [steps, split_append, split_of_isName hn, counted_append, hname, steps, hfront, counted_append]
      simp [counted, isIdle]
  · rw [steps, split_append, split_of_isName hn, counted_append, hname, steps]

theorem start_join {directory name : String} (hn : IsName name) :
    start (join directory name) = start directory := by
  rw [join, not_startsWith_slash hn, if_neg Bool.false_ne_true]
  by_cases hempty : directory = ""
  · subst hempty
    rw [if_pos (by simp), String.empty_append, start, not_startsWith_slash hn]
    decide
  have hne : directory.toList ≠ [] := fun h => hempty (String.toList_inj.1 (by simpa using h))
  have hhead (more : String) : (directory ++ more).toList.head? = directory.toList.head? := by
    obtain ⟨c, cs, hcs⟩ := List.exists_cons_of_ne_nil hne
    rw [String.toList_append, hcs]
    rfl
  refine start_eq_of_head? ?_
  split
  · exact hhead name
  · rw [String.append_assoc]
    exact hhead _

/-- Another last name leads to another place in the same directory. -/
theorem place_withFileName {path old new : String} (h : fileName? path = some old) (hn : IsName new)
    (hi : isIdle new = false) :
    ∃ above, parent? path = some above ∧ place path = place above ++ [old] ∧
      place (withFileName path new) = place above ++ [new] ∧
      steps (withFileName path new) = steps above ++ [new] ∧ steps path = steps above ++ [old] := by
  obtain ⟨above, hparent, hstart, hsteps, -, -⟩ := exists_parent_of_fileName? h
  have hjoin : withFileName path new = join above new := by
    rw [withFileName, h, hparent]
    rfl
  refine ⟨above, hparent, ?_, ?_, ?_, hsteps⟩
  · rw [place, place, hsteps, ← hstart, List.append_assoc]
  · rw [hjoin, place, place, start_join hn, steps_join hn hi, List.append_assoc]
  · rw [hjoin, steps_join hn hi]

end VaultLink.FilePath
