import VaultLink.Association.Store
import VaultLink.Proofs.Json.Reading

/-!
# The content of a store's file

A list of associations is written with one member a line, and it is read back from there as it was, whatever
its strings hold (`StoredAssociation.decodeList_encodeList`).
-/

namespace VaultLink

namespace Json

open Grammar (Blanks Denotes Named)
open Reader (listed)

/-! ## Lines -/

theorem blanks_newline (level : Nat) : Blanks (newline level) := by
  intro b hb
  simp only [newline, List.mem_cons, List.mem_replicate] at hb
  rcases hb with rfl | ⟨-, rfl⟩ <;> rfl

/-- A member on a line of its own; a space follows its colon. -/
def line (level : Nat) (name : String) (value : Json) : Bytes :=
  newline level ++ (quote name ++ 0x3A :: (0x20 :: prettyAt level value))

theorem named_line (level : Nat) (name : String) (value : Json) :
    Named name (0x20 :: prettyAt level value) (line level name value) := by
  have := @Named.intro name (0x20 :: prettyAt level value) _ _ [] (blanks_newline level)
    (spells_escape name) (List.forall_mem_nil _)
  simpa only [line, quote, List.nil_append, List.cons_append, List.append_assoc] using this

theorem prettyMembers_eq_listed (level : Nat) (first : Bool) (members : Members) :
    prettyMembers level first members =
      listed first (members.map fun member => line level member.1 member.2) := by
  induction members generalizing first with
  | nil => rfl
  | cons member members ih =>
    rw [prettyMembers, ih, List.map_cons, listed]
    simp [line, comma]

theorem prettyItems_eq_listed (level : Nat) (first : Bool) (items : List Json) :
    prettyItems level first items =
      listed first (items.map fun item => newline level ++ prettyAt level item) := by
  induction items generalizing first with
  | nil => rfl
  | cons item items ih =>
    rw [prettyItems, ih, List.map_cons, listed]
    simp [comma]

/-- A string after the space behind a colon. -/
theorem reads_string_line (depth level : Nat) (text : String) :
    Reader.Reads Reader.string depth (0x20 :: prettyAt level (.string text)) text := by
  have hspace : Blanks [0x20] := by decide
  have hvalue : Denotes depth (.value (.string text)) (quote text) := .string (spells_escape text)
  have hitem := Denotes.item hspace hvalue (List.forall_mem_nil _)
  rw [List.append_nil] at hitem
  rw [prettyAt]
  exact Reader.reads_string hitem

end Json

namespace StoredAssociation

open Json (line newline prettyAt)
open Json.Reader (Reads Takes)

/-! ## One association -/

theorem reads_into (put : StoredAssociation → String → StoredAssociation) {depth : Nat} {item : Bytes}
    {text : String} (h : Reads Json.Reader.string depth item text) (stored : StoredAssociation) :
    Reads (into put stored) depth item (put stored text) := by
  intro rest hr
  obtain ⟨after, ha, hread⟩ := h rest hr
  exact ⟨after, ha, by rw [into, hread]; rfl⟩

/-- An association takes its fields from its own lines. -/
theorem takes_lines (stored : StoredAssociation) (depth level : Nat) :
    Takes shape depth [] shape.blank
      [line level "database_id" (.string stored.databaseId), line level "name" (.string stored.name),
        line level "id_key" (.string stored.idKey)] stored := by
  have htext (text : String) := Json.reads_string_line depth level text
  refine .cons rfl rfl (Json.named_line ..) (reads_into (fun r x => { r with databaseId := x }) (htext _) _) ?_
  refine .cons rfl rfl (Json.named_line ..) (reads_into (fun r x => { r with name := x }) (htext _) _) ?_
  refine .cons rfl rfl (Json.named_line ..) (reads_into (fun r x => { r with idKey := x }) (htext _) _) ?_
  exact .nil rfl

theorem prettyAt_toJson (stored : StoredAssociation) (level : Nat) :
    prettyAt level stored.toJson =
      0x7B :: (Json.Reader.listed true
        [line (level + 1) "database_id" (.string stored.databaseId),
          line (level + 1) "name" (.string stored.name),
          line (level + 1) "id_key" (.string stored.idKey)] ++ (newline level ++ [0x7D])) := by
  rw [toJson, prettyAt, Json.prettyMembers_eq_listed, List.append_assoc]
  · rfl
  · exact List.cons_ne_nil _ _

theorem reads_toJson (stored : StoredAssociation) (depth level : Nat) :
    Reads (Json.Reader.record shape) (depth + 1) (prettyAt level stored.toJson) stored := by
  rw [prettyAt_toJson]
  exact Json.Reader.reads_record (takes_lines stored depth (level + 1)) (List.forall_mem_nil _)
    (Json.blanks_newline level)

/-! ## A list of them -/

theorem reads_records (records : List StoredAssociation) (depth level : Nat) :
    Reads (Json.Reader.list (Json.Reader.record shape)) (depth + 2)
      (0x20 :: prettyAt level (.array (records.map toJson))) records := by
  have hspace : Json.Grammar.Blanks [0x20] := by decide
  have hitems : ∀ stored ∈ records, ∃ before b tail,
      newline (level + 1) ++ prettyAt (level + 1) stored.toJson = before ++ b :: tail ∧
        Json.Grammar.Blanks before ∧ Json.isSpace b = false ∧ b ≠ 0x5D ∧
        Reads (Json.Reader.record shape) (depth + 1) (b :: tail) stored := by
    intro stored _
    have hread := reads_toJson stored depth (level + 1)
    rw [prettyAt_toJson] at hread ⊢
    exact ⟨_, _, _, rfl, Json.blanks_newline _, rfl, by decide, hread⟩
  cases records with
  | nil => exact Json.Reader.reads_list hitems hspace (List.forall_mem_nil _)
  | cons first more =>
    have hread := Json.Reader.reads_list hitems hspace (Json.blanks_newline level)
    rw [List.map_cons, prettyAt, Json.prettyItems_eq_listed, ← List.map_cons, List.map_map,
      List.append_assoc]
    · exact hread
    · exact List.cons_ne_nil _ _

/-- What is written is read back: the same associations in the same order. -/
theorem decodeList_encodeList (records : List StoredAssociation) :
    decodeList (encodeList records) = .ok records := by
  have htakes : Takes fileShape 126 [] fileShape.blank
      [line 1 "associations" (.array (records.map toJson))] records :=
    .cons rfl rfl (Json.named_line ..) (reads_records records 124 1) (.nil rfl)
  have hread := Json.Reader.reads_record htakes (List.forall_mem_nil _) (Json.blanks_newline 0)
  refine Json.Reader.whole_of_reads ?_
  rw [encodeList, Json.pretty, prettyAt, Json.prettyMembers_eq_listed, List.append_assoc]
  · exact hread
  · exact List.cons_ne_nil _ _

end StoredAssociation

end VaultLink
