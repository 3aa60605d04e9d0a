import VaultLink.Json.Reader
import VaultLink.Proofs.Json.Parsing

/-!
# What is written is read back

A string stands for itself as it is written, escapes and all (`spells_escape`), and so does an object of
strings (`denotes_render`), which is parsed to the object of its members (`parse_render`). They stay as
they stand if their names rise (`Members.ofList_of_ordered`). A record is read from an object whose members
it takes one after the other, however they are written (`Reader.reads_record`).
-/

namespace VaultLink.Json

open Grammar

/-! ## Strings -/

/-- The escape of a control character stands for it. -/
theorem control_spec {n : Nat} (h : n < 32) :
    hexFour? 0x30 0x30 (hexByte (n / 16)) (hexByte (n % 16)) = some n ∧
      isHighSurrogate n = false ∧ isLowSurrogate n = false := by
  have hall : ∀ n < 32, hexFour? 0x30 0x30 (hexByte (n / 16)) (hexByte (n % 16)) = some n ∧
      isHighSurrogate n = false ∧ isLowSurrogate n = false := by decide
  exact hall n h

theorem toNat_ofNat_of_lt {n : Nat} (h : n < 128) : (Char.ofNat n).toNat = n := by
  have hall : ∀ n < 128, (Char.ofNat n).toNat = n := by decide
  exact hall n h

theorem spells_escapeByte {b : UInt8} (h : b.toNat < 128) {bs : Bytes} {cs : List Char}
    (hs : Spells bs cs) : Spells (escapeByte b ++ bs) (Char.ofNat b.toNat :: cs) := by
  unfold escapeByte
  split
  · rename_i hb
    simp only [Bool.or_eq_true, decide_eq_true_eq] at hb
    rcases hb with rfl | rfl <;> exact .letter rfl hs
  · rename_i hb
    simp only [Bool.or_eq_true, decide_eq_true_eq, not_or] at hb
    iterate 5
      split
      · rename_i h
        subst h
        exact .letter rfl hs
    split
    · rename_i hcontrol
      obtain ⟨hhex, hhigh, hlow⟩ := control_spec (UInt8.lt_iff_toNat_lt.1 hcontrol)
      exact .unit hhex hhigh hlow hs
    · rename_i hcontrol
      have hnat := toNat_ofNat_of_lt h
      have hself : String.utf8EncodeChar (Char.ofNat b.toNat) = [b] := by
        rw [Utf8.utf8EncodeChar_of_lt (by rwa [hnat]), hnat, UInt8.ofNat_toNat]
      rw [← hself]
      have hne {c : UInt8} {d : Char} (hc : c.toNat = d.toNat) (hbc : b ≠ c) :
          Char.ofNat b.toNat ≠ d := by
        rintro rfl
        exact hbc (UInt8.toNat_inj.1 (hc.trans hnat).symm)
      refine .plain ?_ (hne rfl hb.1) (hne rfl hb.2) hs
      rw [hnat]
      exact UInt8.le_iff_toNat_le.1 (UInt8.not_lt.1 hcontrol)

/-- A string spells its characters as it is written. -/
theorem spells_escape (text : String) :
    Spells ((Utf8.encode text).flatMap escapeByte) text.toList := by
  rw [Utf8.encode_eq_flatMap, List.flatMap_assoc]
  induction text.toList with
  | nil => exact .nil
  | cons c cs ih =>
    rw [List.flatMap_cons]
    rcases Nat.lt_or_ge c.toNat 128 with hlt | hge
    · have hself : Char.ofNat (UInt8.ofNat c.toNat).toNat = c := by
        rw [UInt8.toNat_ofNat', Nat.mod_eq_of_lt (by omega), Char.ofNat_toNat]
      have := spells_escapeByte (b := UInt8.ofNat c.toNat) (by rw [UInt8.toNat_ofNat']; omega) ih
      rw [hself] at this
      rwa [Utf8.utf8EncodeChar_of_lt hlt, List.flatMap_singleton]
    · rw [flatMap_escapeByte_char hge]
      refine .plain (by omega) ?_ ?_ ih <;> rintro rfl <;> exact absurd hge (by decide)

/-! ## Values -/

/-- What stands for a value stands for it without blanks around it. -/
theorem Grammar.Denotes.item_of_value {depth : Nat} {bs : Bytes} {v : Json}
    (h : Denotes depth (.value v) bs) : Denotes depth (.item v) bs := by
  have hblanks : Blanks [] := List.forall_mem_nil _
  have := Denotes.item hblanks h hblanks
  rwa [List.nil_append, List.append_nil] at this

theorem denotes_quote (depth : Nat) (text : String) :
    Denotes depth (.item (.string text)) (quote text) := by
  have hvalue : Denotes depth (.value (.string text)) (quote text) := .string (spells_escape text)
  exact hvalue.item_of_value

theorem named_quote (name : String) (item : Bytes) : Named name item (quote name ++ 0x3A :: item) := by
  have hblanks : Blanks [] := List.forall_mem_nil _
  have : Named name item _ := .intro hblanks (spells_escape name) hblanks
  simpa only [quote, List.nil_append, List.cons_append, List.append_assoc] using this

theorem renderMembers_cons (first : Bool) (name : String) (value : Json) (members : Members) :
    renderMembers first ((name, value) :: members) =
      comma first ++ (quote name ++ 0x3A :: render value ++ renderMembers false members) := by
  simp [renderMembers, comma]

/-- Members stand for themselves if their values do. -/
theorem denotes_renderMembers {member : String × Json} {members : Members} {depth : Nat}
    (h : ∀ m ∈ member :: members, Denotes depth (.value m.2) (render m.2)) :
    Denotes depth (.members (member :: members)) (renderMembers true (member :: members)) := by
  induction members generalizing member with
  | nil =>
    have hmember := Denotes.member (named_quote member.1 _) (h member List.mem_cons_self).item_of_value
    rw [renderMembers_cons, renderMembers, comma, if_pos rfl, List.nil_append, List.append_nil]
    exact .lastMember hmember
  | cons next members ih =>
    have hmember := Denotes.member (named_quote member.1 _) (h member List.mem_cons_self).item_of_value
    have := Denotes.moreMembers hmember (ih fun m hm => h m (List.mem_cons_of_mem _ hm))
    rwa [renderMembers_cons true] at this ⊢

theorem denotes_of_areTexts {members : Members} (h : AreTexts members) (depth : Nat) :
    ∀ member ∈ members, Denotes depth (.value member.2) (render member.2) := by
  intro member hm
  obtain ⟨text, ht⟩ := h member hm
  rw [ht]
  exact .string (spells_escape text)

/-- An object of strings stands for the object of its members; of two members with one name the later
one counts. -/
theorem denotes_render {members : Members} (h : AreTexts members) (depth : Nat) :
    Denotes (depth + 1) (.item (.object (Members.ofList members))) (render (.object members)) := by
  have hblanks : Blanks [] := List.forall_mem_nil _
  have hvalue : Denotes (depth + 1) (.value (.object (Members.ofList members)))
      (render (.object members)) := by
    rw [render]
    cases members with
    | nil => exact .emptyObject hblanks
    | cons => exact .object (denotes_renderMembers (denotes_of_areTexts h depth))
  exact hvalue.item_of_value

/-- An object of strings is what its text is parsed to. -/
theorem parse_render {members : Members} (h : AreTexts members) :
    parse (render (.object members)) = .ok (.object (Members.ofList members)) :=
  parse_of_denotes (denotes_render h 126)

/-- Of an object of strings the members with known names count. -/
theorem shows_render {members : Members} (h : AreTexts members) (known : List String) (depth : Nat) :
    Shows known (depth + 1) (members.filter (·.1 ∈ known)) (render (.object members)) := by
  rw [render]
  cases members with
  | nil => exact .empty (List.forall_mem_nil _)
  | cons =>
    exact .members (lists_of_denotes (denotes_renderMembers (denotes_of_areTexts h depth)) known)

/-! ## Fields -/

namespace Record

variable {ρ σ : Type} {record : Record ρ σ} {name : String}

theorem mem_of_find?_eq_some {field : Field ρ} (h : record.find? name = some field) :
    field ∈ record.fields ∧ field.name = name :=
  ⟨List.mem_of_find?_eq_some h, by simpa using List.find?_some h⟩

theorem find?_eq_none_iff : record.find? name = none ↔ name ∉ record.fields.map (·.name) := by
  simp [find?, List.find?_eq_none]

end Record

/-! ## Readers -/

namespace Reader

variable {α σ : Type} {depth : Nat} {item : Bytes} {v : Json}

/-- A reader makes `a` of the bytes, up to the blanks before what follows them. -/
def Reads (reader : Reader α) (depth : Nat) (bs : Bytes) (a : α) : Prop :=
  ∀ rest, Ends rest → ∃ after, Blanks after ∧ reader depth (bs ++ rest) = .ok (a, after ++ rest)

/-- A reader makes nothing of the bytes. -/
def Refuses (reader : Reader α) (depth : Nat) (bs : Bytes) : Prop :=
  ∀ rest, Ends rest → ∃ misfit, reader depth (bs ++ rest) = .error misfit

/-- How the text of a value starts. -/
theorem exists_head_of_denotes {value : Bytes} (h : Denotes depth (.value v) value) :
    ∃ b tail, value = b :: tail ∧ isSpace b = false ∧ (b = 0x6E ↔ v = .null) ∧
      (b = 0x22 ↔ v.asString?.isSome = true) := by
  cases h with
  | null | true_ | false_ | string | emptyList | list | emptyObject | object =>
    exact ⟨_, _, rfl, rfl, by simp, by simp [asString?]⟩
  | integer hn | double hn =>
    obtain ⟨b, tail, rfl, -, hs, hother⟩ := exists_head_of_counts hn
    simp only [List.mem_cons, List.not_mem_nil, or_false, not_or] at hother
    exact ⟨b, tail, rfl, hs, by simp [hother], by simp [hother, asString?]⟩

theorem exists_refuse_eq_error {β : Type} (wanted : Wanted) (b : UInt8) (rest : Bytes) :
    ∃ misfit, (refuse wanted b rest : Except Misfit β) = .error misfit := by
  unfold refuse
  cases lift (kindAt b rest) with
  | error misfit => exact ⟨misfit, rfl⟩
  | ok found => exact ⟨.wrongKind found wanted, rfl⟩

theorem reads_value (h : Denotes depth (.item v) item) : Reads value depth item v := by
  intro rest hr
  obtain ⟨after, ha, hv⟩ := readValue_of_denotes h hr
  exact ⟨after, ha, by rw [value, hv, lift]⟩

theorem reads_string {text : String} (h : Denotes depth (.item (.string text)) item) :
    Reads string depth item text := by
  intro rest _
  obtain ⟨before, value, after, rfl, hb, hv, ha⟩ := h.exists_value
  obtain ⟨body, rfl, hs⟩ : ∃ body, value = 0x22 :: (body ++ [0x22]) ∧ Spells body text.toList := by
    cases hv with
    | string hs => exact ⟨_, rfl, hs⟩
  refine ⟨after, ha, ?_⟩
  simp only [string, List.append_assoc, List.cons_append, skipSpace_append hb]
  rw [skipSpace_cons rfl]
  simp only [if_true, List.nil_append, readString_of_spells hs, lift]

/-- What is not a string is not read as one. -/
theorem refuses_string (h : Denotes depth (.item v) item) (hv : v.asString? = none) :
    Refuses string depth item := by
  intro rest _
  obtain ⟨before, value, after, rfl, hb, hvalue, ha⟩ := h.exists_value
  obtain ⟨b, tail, rfl, hs, -, hquote⟩ := exists_head_of_denotes hvalue
  have hne : b ≠ 0x22 := fun h => by simp [hv] at hquote; exact hquote h
  obtain ⟨misfit, hm⟩ := exists_refuse_eq_error (β := String × Bytes) .string b (tail ++ (after ++ rest))
  refine ⟨misfit, ?_⟩
  simp only [string, List.append_assoc, List.cons_append, skipSpace_append hb]
  rw [skipSpace_cons hs]
  simp only [hne, if_false, hm]

theorem reads_optional_null (inner : Reader α) (h : Denotes depth (.item .null) item) :
    Reads (optional inner) depth item none := by
  intro rest _
  obtain ⟨before, value, after, rfl, hb, hv, ha⟩ := h.exists_value
  cases hv
  refine ⟨after, ha, ?_⟩
  simp only [optional, List.append_assoc, List.cons_append, skipSpace_append hb]
  rw [skipSpace_cons rfl]
  rfl

/-- What is not null is read as it would be alone. -/
theorem optional_append (inner : Reader α) (h : Denotes depth (.item v) item) (hv : v ≠ .null) :
    ∃ before bare, item = before ++ bare ∧ Denotes depth (.item v) bare ∧ ∀ rest,
      optional inner depth (item ++ rest) =
        inner depth (bare ++ rest) >>= fun read => pure (some read.1, read.2) := by
  obtain ⟨before, value, after, rfl, hb, hvalue, ha⟩ := h.exists_value
  obtain ⟨b, tail, rfl, hs, hnull, -⟩ := exists_head_of_denotes hvalue
  refine ⟨before, b :: tail ++ after, rfl, .item (List.forall_mem_nil _) hvalue ha, fun rest => ?_⟩
  rw [optional, List.append_assoc, skipSpace_append hb]
  simp only [List.cons_append]
  rw [skipSpace_cons hs]
  split
  · rename_i heq
    cases heq
    exact absurd (hnull.1 rfl) hv
  · rfl

theorem reads_optional {inner : Reader α} {a : α} (h : Denotes depth (.item v) item) (hv : v ≠ .null)
    (hi : ∀ bare, Denotes depth (.item v) bare → Reads inner depth bare a) :
    Reads (optional inner) depth item (some a) := by
  intro rest hr
  obtain ⟨before, bare, -, hbare, hopt⟩ := optional_append inner h hv
  obtain ⟨after, ha, hread⟩ := hi bare hbare rest hr
  exact ⟨after, ha, by rw [hopt, hread]; rfl⟩

theorem refuses_optional {inner : Reader α} (h : Denotes depth (.item v) item) (hv : v ≠ .null)
    (hi : ∀ bare, Denotes depth (.item v) bare → Refuses inner depth bare) :
    Refuses (optional inner) depth item := by
  intro rest hr
  obtain ⟨before, bare, -, hbare, hopt⟩ := optional_append inner h hv
  obtain ⟨misfit, hm⟩ := hi bare hbare rest hr
  exact ⟨misfit, by rw [hopt, hm]; rfl⟩

/-! ## Records -/

variable {record : Record (σ → Reader σ) σ}

theorem membersFrom_blanks {blanks : Bytes} (h : Blanks blanks) (fuel : Nat) (first : Bool)
    (seen : List String) (state : σ) (bs : Bytes) :
    membersFrom record depth fuel first seen state (blanks ++ bs) =
      membersFrom record depth fuel first seen state bs := by
  cases fuel with
  | zero => simp only [membersFrom]
  | succ fuel => rw [membersFrom, nextName_blanks h, membersFrom]

theorem membersFrom_closed {seen : List String} (h : record.missing? seen = none) (fuel : Nat)
    (first : Bool) (state : σ) (rest : Bytes) :
    membersFrom record depth (fuel + 1) first seen state (0x7D :: rest) = .ok (state, rest) := by
  rw [membersFrom, nextName_closed]
  simp only [lift, bind, Except.bind, h, pure, Except.pure]

/-- A member with the name of a field is read into it. -/
theorem membersFrom_field {name : String} {member : Bytes} {field : Field (σ → Reader σ)}
    {seen : List String} (hf : record.find? name = some field) (hs : seen.contains name = false)
    (hm : Named name item member) (fuel : Nat) (first : Bool) (state : σ) (rest : Bytes) :
    membersFrom record depth (fuel + 1) first seen state (comma first ++ (member ++ rest)) =
      field.read state depth (item ++ rest) >>= fun read =>
        membersFrom record depth fuel false (name :: seen) read.1 read.2 := by
  obtain ⟨tail, hnext, tail', hname, hcolon⟩ := exists_nextName hm first rest
  rw [membersFrom, hnext]
  simp only [lift, bind, Except.bind, hname, hf, hs, Bool.false_eq_true, if_false, hcolon]

/-- A member with another name is passed over. -/
theorem membersFrom_passed {name : String} {member : Bytes} (hf : record.find? name = none)
    (hm : Named name item member) (hi : Derives .item item) (fuel : Nat) (first : Bool)
    (seen : List String) (state : σ) {rest : Bytes} (hr : Ends rest) :
    membersFrom record depth (fuel + 1) first seen state (comma first ++ (member ++ rest)) =
      membersFrom record depth fuel false seen state rest := by
  obtain ⟨tail, hnext, tail', hname, hcolon⟩ := exists_nextName hm first rest
  obtain ⟨after, ha, hskip⟩ := Scan.skip_of_derives hi hr
  rw [membersFrom, hnext]
  simp only [lift, bind, Except.bind, hname, hf, hcolon, hskip, membersFrom_blanks ha]

/-- Texts with commas between them, and one before the first unless it is the first of all. -/
def listed (first : Bool) : List Bytes → Bytes
  | [] => []
  | text :: texts => comma first ++ (text ++ listed false texts)

theorem ends_listed (texts : List Bytes) {rest : Bytes} (h : Ends rest) :
    Ends (listed false texts ++ rest) := by
  cases texts with
  | nil => exact h
  | cons => exact ends_cons rfl _

/-- Members that a record takes one after the other, by which it comes from one state to another; the
names before them are in `seen`. -/
inductive Takes (record : Record (σ → Reader σ) σ) (depth : Nat) :
    (seen : List String) → σ → List Bytes → σ → Prop
  | nil {seen : List String} {state : σ} : record.missing? seen = none →
    Takes record depth seen state [] state
  | cons {seen : List String} {state next final : σ} {name : String} {item member : Bytes}
    {field : Field (σ → Reader σ)} {members : List Bytes} : record.find? name = some field →
    seen.contains name = false → Named name item member → Reads (field.read state) depth item next →
    Takes record depth (name :: seen) next members final →
    Takes record depth seen state (member :: members) final

theorem Takes.length_le {seen : List String} {state final : σ} {members : List Bytes}
    (h : Takes record depth seen state members final) (first : Bool) :
    members.length ≤ (listed first members).length := by
  induction h generalizing first with
  | nil => exact Nat.zero_le _
  | cons _ _ hm _ _ ih =>
    have := ih false
    have := hm.length_lt
    simp only [listed, List.length_append, List.length_cons]
    omega

theorem membersFrom_of_takes {seen : List String} {state final : σ} {members : List Bytes}
    (h : Takes record depth seen state members final) {fuel : Nat} (hf : members.length < fuel)
    {blanks : Bytes} (hb : Blanks blanks) (first : Bool) (rest : Bytes) :
    membersFrom record depth fuel first seen state
      (listed first members ++ (blanks ++ 0x7D :: rest)) = .ok (final, rest) := by
  have hr : Ends (blanks ++ 0x7D :: rest) := (ends_cons rfl rest).blanks hb
  induction h generalizing fuel first with
  | nil hm =>
    obtain ⟨fuel, rfl⟩ := Nat.exists_eq_succ_of_ne_zero (Nat.ne_zero_of_lt hf)
    rw [listed, List.nil_append, membersFrom_blanks hb, membersFrom_closed hm]
  | @cons seen state next final name item member field members hfind hs hm hread _ ih =>
    obtain ⟨fuel, rfl⟩ := Nat.exists_eq_succ_of_ne_zero (Nat.ne_zero_of_lt hf)
    obtain ⟨after, ha, hitem⟩ := hread _ (ends_listed members hr)
    rw [listed, List.append_assoc, List.append_assoc, membersFrom_field hfind hs hm, hitem]
    exact (membersFrom_blanks ha _ _ _ _ _).trans (ih (Nat.lt_of_succ_lt_succ hf) false)

/-- A record is read from an object whose members it takes. -/
theorem reads_record {members : List Bytes} {final : σ}
    (h : Takes record depth [] record.blank members final) {before blanks : Bytes}
    (hbefore : Blanks before) (hb : Blanks blanks) :
    Reads (Reader.record record) (depth + 1)
      (before ++ 0x7B :: (listed true members ++ (blanks ++ [0x7D]))) final := by
  intro rest _
  refine ⟨[], List.forall_mem_nil _, ?_⟩
  have hf : members.length < (listed true members ++ (blanks ++ [0x7D]) ++ rest).length + 1 := by
    have := h.length_le true
    simp only [List.length_append]
    omega
  have hread := membersFrom_of_takes h hf hb true rest
  rw [Reader.record, List.append_assoc, skipSpace_append hbefore, List.cons_append, skipSpace_cons rfl]
  simp only [if_true]
  simpa only [List.append_assoc, List.singleton_append, List.nil_append] using hread

/-! ## Lists -/

theorem itemsFrom_blanks {blanks : Bytes} (h : Blanks blanks) (inner : Reader α) (fuel : Nat)
    (first : Bool) (bs : Bytes) :
    itemsFrom inner depth fuel first (blanks ++ bs) = itemsFrom inner depth fuel first bs := by
  cases fuel with
  | zero => simp only [itemsFrom]
  | succ fuel => rw [itemsFrom, nextItem_blanks h, itemsFrom]

/-- A list is read from its items, each of which is read without the blanks before it. -/
theorem itemsFrom_of_reads {inner : Reader α} {written : α → Bytes} {as : List α}
    (h : ∀ a ∈ as, ∃ before b tail, written a = before ++ b :: tail ∧ Blanks before ∧
      isSpace b = false ∧ b ≠ 0x5D ∧ Reads inner depth (b :: tail) a)
    {fuel : Nat} (hf : as.length < fuel) {blanks : Bytes} (hb : Blanks blanks) (first : Bool)
    (rest : Bytes) :
    itemsFrom inner depth fuel first (listed first (as.map written) ++ (blanks ++ 0x5D :: rest)) =
      .ok (as, rest) := by
  have hr : Ends (blanks ++ 0x5D :: rest) := (ends_cons rfl rest).blanks hb
  induction as generalizing fuel first with
  | nil =>
    obtain ⟨fuel, rfl⟩ := Nat.exists_eq_succ_of_ne_zero (Nat.ne_zero_of_lt hf)
    rw [List.map_nil, listed, List.nil_append, itemsFrom_blanks hb, itemsFrom, nextItem_closed]
    rfl
  | cons a as ih =>
    obtain ⟨fuel, rfl⟩ := Nat.exists_eq_succ_of_ne_zero (Nat.ne_zero_of_lt hf)
    obtain ⟨⟨before, b, tail, hw, hbefore, hs, hne, hread⟩, hrest⟩ := List.forall_mem_cons.1 h
    obtain ⟨after, ha, hitem⟩ := hread _ (ends_listed (as.map written) hr)
    have htail := ih hrest (Nat.lt_of_succ_lt_succ hf) false
    rw [List.map_cons, listed, hw]
    simp only [List.append_assoc, List.cons_append] at hitem ⊢
    rw [itemsFrom, nextItem_append hbefore hs hne]
    simp only [lift, bind, Except.bind, hitem, itemsFrom_blanks ha, htail, pure, Except.pure]

theorem length_le_listed {written : α → Bytes} {as : List α} (h : ∀ a ∈ as, 0 < (written a).length)
    (first : Bool) : as.length ≤ (listed first (as.map written)).length := by
  induction as generalizing first with
  | nil => exact Nat.zero_le _
  | cons a as ih =>
    obtain ⟨ha, has⟩ := List.forall_mem_cons.1 h
    have := ih has false
    simp only [List.map_cons, listed, List.length_append, List.length_cons]
    omega

/-- A list is read from its items, the bracket before them included. -/
theorem reads_list {inner : Reader α} {written : α → Bytes} {as : List α}
    (h : ∀ a ∈ as, ∃ before b tail, written a = before ++ b :: tail ∧ Blanks before ∧
      isSpace b = false ∧ b ≠ 0x5D ∧ Reads inner depth (b :: tail) a)
    {before blanks : Bytes} (hbefore : Blanks before) (hb : Blanks blanks) :
    Reads (list inner) (depth + 1)
      (before ++ 0x5B :: (listed true (as.map written) ++ (blanks ++ [0x5D]))) as := by
  intro rest _
  refine ⟨[], List.forall_mem_nil _, ?_⟩
  have hpos : ∀ a ∈ as, 0 < (written a).length := by
    intro a ha
    obtain ⟨front, b, tail, hw, -⟩ := h a ha
    rw [hw, List.length_append, List.length_cons]
    omega
  have hf : as.length < (listed true (as.map written) ++ (blanks ++ [0x5D]) ++ rest).length + 1 := by
    have := length_le_listed hpos true
    simp only [List.length_append]
    omega
  have hread := itemsFrom_of_reads h hf hb true rest
  rw [list, List.append_assoc, skipSpace_append hbefore, List.cons_append, skipSpace_cons rfl]
  simp only [if_true]
  simpa only [List.append_assoc, List.singleton_append, List.nil_append] using hread

/-! ## Texts -/

theorem whole_of_reads {reader : Reader α} {text : Bytes} {a : α}
    (h : Reads reader depthLimit text a) : reader.whole text = .ok a := by
  obtain ⟨after, ha, hread⟩ := h [] ends_nil
  rw [List.append_nil, List.append_nil] at hread
  simp only [whole, hread, bind, Except.bind, finish_of_blanks ha, lift, pure, Except.pure]

end Reader

end VaultLink.Json
