import VaultLink.Proofs.Json.Accepting
import VaultLink.Proofs.Json.Sound
import VaultLink.Proofs.Proxy.Members

/-!
# The forms of a message

The known members of a message are read from an object, and from nothing else but the list of their
values in order (`InboundFields.read_eq_ok_iff`).
-/

namespace VaultLink

namespace Json

open Grammar

variable {bs rest : Bytes}

theorem ends_of_blanks {blanks : Bytes} (h : Blanks blanks) {b : UInt8}
    (hb : Scan.follows b = true) (more : Bytes) : Ends (blanks ++ b :: more) :=
  (ends_cons hb more).blanks h

/-- After an item the list is closed or goes on. -/
theorem ends_of_nextItem {turn : Turn} (h : nextItem false bs = .ok turn) : Ends bs := by
  cases turn with
  | closed tail =>
    obtain ⟨blanks, hb, rfl⟩ := exists_of_nextItem_closed h
    exact ends_of_blanks hb rfl tail
  | another tail =>
    obtain ⟨blanks, before, hb, -, rfl⟩ := exists_of_nextItem_another h
    exact ends_of_blanks hb rfl _

/-- After a member the object is closed or goes on. -/
theorem ends_of_nextName {turn : Turn} (h : nextName false bs = .ok turn) : Ends bs := by
  cases turn with
  | closed tail =>
    obtain ⟨blanks, hb, rfl⟩ := exists_of_nextName_closed h
    exact ends_of_blanks hb rfl tail
  | another tail =>
    obtain ⟨blanks, before, hb, -, rfl⟩ := exists_of_nextName_another h
    exact ends_of_blanks hb rfl _

namespace Reader

variable {α σ : Type} {depth : Nat}

theorem lift_eq_ok_iff {x : Except Fault α} {a : α} : lift x = .ok a ↔ x = .ok a := by
  cases x <;> simp [lift]

/-- Whatever a reader takes off the front of a text is one value, with blanks before it. -/
def Bites (reader : Reader α) : Prop := ∀ depth bs a rest, reader depth bs = .ok (a, rest) →
  ∃ item v, bs = item ++ rest ∧ Denotes depth (.item v) item

theorem item_of_value {before value : Bytes} {v : Json} (hb : Blanks before)
    (hv : Denotes depth (.value v) value) : Denotes depth (.item v) (before ++ value) :=
  hv.item_of_value.blanks_append nofun hb

theorem bites_value : Bites value := by
  intro depth bs v rest h
  obtain ⟨before, bytes, rfl, hb, hv⟩ := denotes_of_readValue (lift_eq_ok_iff.1 h)
  exact ⟨before ++ bytes, v, (List.append_assoc ..).symm, item_of_value hb hv⟩

theorem bites_string : Bites string := by
  intro depth bs text rest h
  unfold string at h
  split at h
  · cases h
  · rename_i b tail hskip
    obtain ⟨before, hb, rfl⟩ := exists_of_skipSpace hskip
    split at h
    · rename_i hquote
      obtain ⟨body, rfl, hbody⟩ := readString_eq_ok_iff.1 (lift_eq_ok_iff.1 h)
      exact ⟨before ++ 0x22 :: (body ++ [0x22]), .string text, by simp [hquote],
        item_of_value hb (.string hbody)⟩
    · obtain ⟨misfit, hm⟩ := exists_refuse_eq_error (β := String × Bytes) .string b tail
      rw [hm] at h
      cases h

theorem bites_optional {inner : Reader α} (hinner : Bites inner) : Bites (optional inner) := by
  intro depth bs a rest h
  unfold optional at h
  split at h
  · rename_i tail hskip
    obtain ⟨before, hb, rfl⟩ := exists_of_skipSpace hskip
    obtain ⟨rest', hword, h⟩ := bind_eq_ok.1 h
    cases h
    have hnull := eq_of_readWord (lift_eq_ok_iff.1 hword)
    exact ⟨before ++ [0x6E, 0x75, 0x6C, 0x6C], .null, by simp [hnull], item_of_value hb .null⟩
  · obtain ⟨⟨a', rest'⟩, hread, h⟩ := bind_eq_ok.1 h
    cases h
    obtain ⟨item, v, hitem, hv⟩ := hinner _ _ _ _ hread
    obtain ⟨before, hb, hbs⟩ := exists_of_skipSpace (Eq.refl (skipSpace bs))
    exact ⟨before ++ item, v, by rw [List.append_assoc, ← hitem, ← hbs], hv.blanks_append nofun hb⟩

theorem exists_of_endList (h : endList bs = .ok rest) :
    ∃ blanks, Blanks blanks ∧ bs = blanks ++ 0x5D :: rest := by
  unfold endList at h
  split at h
  · cases h
  · rename_i b tail hskip
    obtain ⟨blanks, hb, rfl⟩ := exists_of_skipSpace hskip
    split at h
    · rename_i hclose
      cases h
      exact ⟨blanks, hb, by rw [hclose]⟩
    · split at h
      · split at h <;> cases h
      · cases h

theorem endList_blanks {blanks : Bytes} (h : Blanks blanks) (rest : Bytes) :
    endList (blanks ++ 0x5D :: rest) = .ok rest := by
  rw [endList, skipSpace_append h, skipSpace_cons rfl]
  rfl

variable {record : Record (σ → Reader σ) σ} {state : σ} {read : σ × Bytes}

theorem ends_of_membersFrom {fuel : Nat} {seen : List String}
    (h : membersFrom record depth fuel false seen state bs = .ok read) : Ends bs := by
  cases fuel with
  | zero => cases h
  | succ fuel =>
    rw [membersFrom] at h
    obtain ⟨turn, hturn, -⟩ := bind_eq_ok.1 h
    exact ends_of_nextName (lift_eq_ok_iff.1 hturn)

theorem ends_of_fieldsFrom {fields : List (Field (σ → Reader σ))} {index : Nat}
    (h : fieldsFrom record depth fields (index + 1) state bs = .ok read) : Ends bs := by
  cases fields with
  | nil =>
    rw [fieldsFrom] at h
    obtain ⟨rest, hend, -⟩ := bind_eq_ok.1 h
    obtain ⟨blanks, hb, rfl⟩ := exists_of_endList (lift_eq_ok_iff.1 hend)
    exact ends_of_blanks hb rfl rest
  | cons field fields =>
    rw [fieldsFrom] at h
    obtain ⟨turn, hturn, -⟩ := bind_eq_ok.1 h
    exact ends_of_nextItem (lift_eq_ok_iff.1 hturn)

end Reader

end Json

namespace InboundFields

open Json (Reader Members comma Ends)
open Json.Grammar

variable {depth : Nat} {bs rest : Bytes} {seen : Members}

/-! ## One member -/

theorem bites_field {field : Json.Field (InboundFields → Reader InboundFields)}
    (hf : field ∈ shape.fields) (fields : InboundFields) : Reader.Bites (field.read fields) := by
  have hinto {α : Type} {reader : Reader α} (hreader : Reader.Bites reader)
      (put : InboundFields → α → InboundFields) : Reader.Bites (into reader put fields) := by
    intro depth bs next rest h
    obtain ⟨⟨a, rest'⟩, hread, h⟩ := bind_eq_ok.1 h
    cases h
    exact hreader _ _ _ _ hread
  simp only [shape, List.mem_cons, List.not_mem_nil, or_false] at hf
  rcases hf with rfl | rfl | rfl | rfl | rfl | rfl | rfl | rfl
  all_goals
    dsimp only
    first
    | exact hinto (Reader.bites_optional Reader.bites_string) _
    | exact hinto (Reader.bites_optional Reader.bites_value) _

theorem find?_name : ∀ field ∈ shape.fields, shape.find? field.name = some field := by
  simp [shape, Json.Record.find?]

/-- A known member that is read can stand under its name, and is told with those before it. -/
theorem exists_of_read {field : Json.Field (InboundFields → Reader InboundFields)}
    (hf : field ∈ shape.fields) {next : InboundFields}
    (h : field.read (ofMembers seen) depth bs = .ok (next, rest)) (hr : Ends rest) :
    ∃ item v, bs = item ++ rest ∧ Denotes depth (.item v) item ∧ admits field.name v = true ∧
      next = ofMembers ((field.name, v) :: seen) := by
  obtain ⟨item, v, rfl, hv⟩ := bites_field hf (ofMembers seen) _ _ _ _ h
  have hread := read_member (find?_name field hf) hv seen
  split at hread
  · rename_i hadmits
    obtain ⟨after, -, hread⟩ := hread rest hr
    obtain ⟨hnext, -⟩ := Prod.mk.inj (Except.ok.inj (h.symm.trans hread))
    exact ⟨item, v, rfl, hv, hadmits, hnext⟩
  · obtain ⟨misfit, hread⟩ := hread rest hr
    cases h.symm.trans hread

/-! ## Objects -/

/-- Members may have more blanks before them. -/
theorem lists_blanks_append {members : Members} {inner blanks : Bytes}
    (h : Lists known depth members inner) (hb : Blanks blanks) :
    Lists known depth members (blanks ++ inner) := by
  have hentry {entry : Option (String × Json)} {member : Bytes} (h : Entry known depth entry member) :
      Entry known depth entry (blanks ++ member) := by
    cases h with
    | kept hk hm hv => exact .kept hk (hm.blanks_append hb) hv
    | passed hk hm hi => exact .passed hk (hm.blanks_append hb) hi
  cases h with
  | last he => exact .last (hentry he)
  | more he hl =>
    rw [← List.append_assoc]
    exact .more (hentry he) hl

/-- What is left of an object after the blanks: its end, or a comma unless nothing was before it, and
members of which these are known. -/
def Remains (depth : Nat) (first : Bool) (members : Members) (bs rest : Bytes) : Prop :=
  (members = [] ∧ bs = 0x7D :: rest) ∨
    ∃ inner, Lists known depth members inner ∧ bs = comma first ++ (inner ++ 0x7D :: rest)

/-- A member, and what is left after it. -/
theorem Remains.cons {entry : Option (String × Json)} {member : Bytes} {members : Members}
    (he : Entry known depth entry member) (h : Remains depth false members bs rest) (first : Bool) :
    Remains depth first (entry.toList ++ members) (comma first ++ (member ++ bs)) rest := by
  rcases h with ⟨rfl, rfl⟩ | ⟨inner, hl, rfl⟩
  · refine .inr ⟨member, ?_, rfl⟩
    rw [List.append_nil]
    exact .last he
  · exact .inr ⟨_, .more he hl, by simp [comma]⟩

/-- The members that are left of an object, when they are read: no known one is there twice, and each of
them can stand under its name. -/
theorem remains_of_membersFrom {fuel : Nat} {first : Bool} {fields : InboundFields}
    (h : Reader.membersFrom shape depth fuel first (seen.map (·.1)) (ofMembers seen) bs =
      .ok (fields, rest)) (hn : (seen.map (·.1)).Nodup) :
    ∃ blanks tail members, bs = blanks ++ tail ∧ Blanks blanks ∧
      Remains depth first members tail rest ∧ ((members.reverse ++ seen).map (·.1)).Nodup ∧
      Textual members ∧ fields = ofMembers (members.reverse ++ seen) := by
  induction fuel generalizing first seen bs with
  | zero => cases h
  | succ fuel ih =>
    rw [Reader.membersFrom] at h
    obtain ⟨turn, hturn, hstep⟩ := bind_eq_ok.1 h
    have hturn := Reader.lift_eq_ok_iff.1 hturn
    cases turn with
    | closed tail =>
      simp only [missing?_eq_none] at hstep
      cases hstep
      obtain ⟨blanks, hb, rfl⟩ := Json.exists_of_nextName_closed hturn
      exact ⟨blanks, _, [], rfl, hb, .inl ⟨rfl, rfl⟩, by simpa using hn, List.forall_mem_nil _, rfl⟩
    | another tail =>
      obtain ⟨blanks, before, hb, hbefore, rfl⟩ := Json.exists_of_nextName_another hturn
      obtain ⟨⟨name, tail'⟩, hname, hstep⟩ := bind_eq_ok.1 hstep
      have hname := Reader.lift_eq_ok_iff.1 hname
      cases hfind : shape.find? name with
      | some field =>
        simp only [hfind] at hstep
        split at hstep
        · cases hstep
        rename_i hfresh
        obtain ⟨hfield, rfl⟩ := Json.Record.mem_of_find?_eq_some hfind
        obtain ⟨afterColon, hcolon, hstep⟩ := bind_eq_ok.1 hstep
        obtain ⟨⟨state, tail''⟩, hread, hmore⟩ := bind_eq_ok.1 hstep
        obtain ⟨item, v, rfl, hv, hadmits, rfl⟩ :=
          exists_of_read hfield hread (Reader.ends_of_membersFrom hmore)
        have hn' : (((field.name, v) :: seen).map (·.1)).Nodup :=
          List.nodup_cons.2 ⟨by simpa using hfresh, hn⟩
        obtain ⟨after, tail, members, rfl, ha, hremains, hnodup, htextual, rfl⟩ := ih hmore hn'
        obtain ⟨front, hfront, hnamed⟩ := Json.named_of_read hbefore hname
          (Reader.lift_eq_ok_iff.1 hcolon) (item ++ after)
        have hentry : Entry known depth (some (field.name, v)) _ :=
          .kept (List.mem_map_of_mem hfield) hnamed (hv.append_blanks ha)
        refine ⟨blanks, _, (field.name, v) :: members, rfl, hb, ?_, by simpa using hnodup,
          List.forall_mem_cons.2 ⟨hadmits, htextual⟩, by simp⟩
        have := hremains.cons hentry first
        rw [hfront]
        simpa using this
      | none =>
        simp only [hfind] at hstep
        obtain ⟨afterColon, hcolon, hstep⟩ := bind_eq_ok.1 hstep
        obtain ⟨tail'', hskip, hmore⟩ := bind_eq_ok.1 hstep
        obtain ⟨before', value, rfl, hb', hv⟩ :=
          Json.Scan.derives_of_skip (Reader.lift_eq_ok_iff.1 hskip)
        obtain ⟨after, tail, members, rfl, ha, hremains, hnodup, htextual, rfl⟩ := ih hmore hn
        obtain ⟨front, hfront, hnamed⟩ := Json.named_of_read hbefore hname
          (Reader.lift_eq_ok_iff.1 hcolon) (before' ++ (value ++ after))
        have hentry : Entry known depth none _ :=
          .passed (Json.Record.find?_eq_none_iff.1 hfind) hnamed (.item hb' hv ha)
        refine ⟨blanks, _, members, rfl, hb, ?_, hnodup, htextual, rfl⟩
        have := hremains.cons hentry first
        rw [hfront]
        simpa using this

/-! ## Lists -/

variable {fields : List (Json.Field (InboundFields → Reader InboundFields))} {index : Nat}

/-- The values of a row of fields, under their names. -/
def labelled (fields : List (Json.Field (InboundFields → Reader InboundFields))) (vs : List Json) :
    Members := (fields.map (·.name)).zip vs

/-- No list ends before its last field. -/
theorem findIdx?_presence {field : Json.Field (InboundFields → Reader InboundFields)}
    (h : field ∈ shape.fields) (fields : List (Json.Field (InboundFields → Reader InboundFields))) :
    (field :: fields).findIdx? (fun field => field.presence ≠ .defaulted) = some 0 := by
  have hpresence : ∀ field ∈ shape.fields, field.presence ≠ .defaulted := by simp [shape]
  simp [List.findIdx?_cons, hpresence field h]

/-- The items that are left of a list, when they are read: one for each field. -/
theorem items_of_fieldsFrom (hf : ∀ field ∈ fields, field ∈ shape.fields) {final : InboundFields}
    (h : Reader.fieldsFrom shape depth fields index (ofMembers seen) bs = .ok (final, rest)) :
    ∃ blanks vs, Blanks blanks ∧ vs.length = fields.length ∧ Textual (labelled fields vs) ∧
      final = ofMembers ((labelled fields vs).reverse ++ seen) ∧
      ((vs = [] ∧ bs = blanks ++ 0x5D :: rest) ∨ ∃ items, Denotes depth (.items vs) items ∧
        bs = blanks ++ (comma (index = 0) ++ (items ++ 0x5D :: rest))) := by
  induction fields generalizing index seen bs with
  | nil =>
    rw [Reader.fieldsFrom] at h
    obtain ⟨rest', hend, hstep⟩ := bind_eq_ok.1 h
    cases hstep
    obtain ⟨blanks, hb, rfl⟩ := Reader.exists_of_endList (Reader.lift_eq_ok_iff.1 hend)
    exact ⟨blanks, [], hb, rfl, List.forall_mem_nil _, rfl, .inl ⟨rfl, rfl⟩⟩
  | cons field fields ih =>
    obtain ⟨hfield, hfields⟩ := List.forall_mem_cons.1 hf
    rw [Reader.fieldsFrom] at h
    obtain ⟨turn, hturn, hstep⟩ := bind_eq_ok.1 h
    have hturn := Reader.lift_eq_ok_iff.1 hturn
    cases turn with
    | closed tail =>
      simp only [findIdx?_presence hfield] at hstep
      cases hstep
    | another tail =>
      obtain ⟨blanks, before, hb, hbefore, rfl⟩ := Json.exists_of_nextItem_another hturn
      obtain ⟨⟨state, tail'⟩, hread, hmore⟩ := bind_eq_ok.1 hstep
      obtain ⟨item, v, rfl, hv, hadmits, rfl⟩ :=
        exists_of_read hfield hread (Reader.ends_of_fieldsFrom hmore)
      obtain ⟨after, vs, ha, hlength, htextual, rfl, hrest⟩ := ih hfields hmore
      have hitem := (hv.append_blanks ha).blanks_append nofun hbefore
      refine ⟨blanks, v :: vs, hb, congrArg (· + 1) hlength,
        List.forall_mem_cons.2 ⟨hadmits, htextual⟩, by simp [labelled], .inr ?_⟩
      rcases hrest with ⟨rfl, rfl⟩ | ⟨items, hitems, rfl⟩
      · exact ⟨_, .lastItem hitem, by simp⟩
      · exact ⟨_, .moreItems hitem hitems, by simp [comma]⟩

theorem fieldsFrom_blanks {blanks : Bytes} (hb : Blanks blanks) (state : InboundFields) (bs : Bytes) :
    Reader.fieldsFrom shape depth fields index state (blanks ++ bs) =
      Reader.fieldsFrom shape depth fields index state bs := by
  cases fields with
  | nil =>
    rw [Reader.fieldsFrom, Reader.fieldsFrom, Reader.endList, Reader.endList, Json.skipSpace_append hb]
  | cons => rw [Reader.fieldsFrom, Reader.fieldsFrom, Json.nextItem_blanks hb]

/-- The next item is read into its field. -/
theorem fieldsFrom_item {field : Json.Field (InboundFields → Reader InboundFields)}
    (hfield : field ∈ shape.fields) {item : Bytes} {v : Json} (hv : Denotes depth (.item v) item)
    (hadmits : admits field.name v = true) (hr : Ends rest) :
    Reader.fieldsFrom shape depth (field :: fields) index (ofMembers seen)
        (comma (index = 0) ++ (item ++ rest)) =
      Reader.fieldsFrom shape depth fields (index + 1) (ofMembers ((field.name, v) :: seen)) rest := by
  obtain ⟨before, value, after, rfl, hb, hvalue, ha⟩ := hv.exists_value
  obtain ⟨b, tail, rfl, hs, hne⟩ := (Json.derives_of_denotes hvalue).exists_head
  have hbare : Denotes depth (.item v) (b :: tail ++ after) := hvalue.item_of_value.append_blanks ha
  have hread := read_member (find?_name field hfield) hbare seen
  rw [if_pos hadmits] at hread
  obtain ⟨more, hmore, hread⟩ := hread rest hr
  rw [Reader.fieldsFrom]
  simp only [List.append_assoc, List.cons_append] at hread ⊢
  rw [Json.nextItem_append hb hs hne]
  simp only [Reader.lift, bind, Except.bind, hread, fieldsFrom_blanks hmore]

theorem fieldsFrom_of_items (hf : ∀ field ∈ fields, field ∈ shape.fields) {vs : List Json}
    {items : Bytes} (h : Denotes depth (.items vs) items) (hlength : vs.length = fields.length)
    (htextual : Textual (labelled fields vs)) :
    Reader.fieldsFrom shape depth fields index (ofMembers seen)
        (comma (index = 0) ++ (items ++ 0x5D :: rest)) =
      .ok (ofMembers ((labelled fields vs).reverse ++ seen), rest) := by
  generalize hsense : Sense.items vs = sense at h
  induction h generalizing fields index seen vs with
  | @lastItem depth item v hv =>
    cases hsense
    obtain ⟨field, rfl⟩ := List.length_eq_one_iff.1 hlength.symm
    have hadmits : admits field.name v = true := htextual _ List.mem_cons_self
    have hends := Json.ends_cons (b := 0x5D) rfl rest
    rw [fieldsFrom_item (hf field List.mem_cons_self) hv hadmits hends, Reader.fieldsFrom,
      ← List.nil_append (0x5D :: rest), Reader.endList_blanks (List.forall_mem_nil _)]
    rfl
  | @moreItems depth item items v vs hv _ _ ih =>
    cases hsense
    cases fields with
    | nil => cases hlength
    | cons field fields =>
      obtain ⟨hfield, hfields⟩ := List.forall_mem_cons.1 hf
      obtain ⟨hadmits, hrest⟩ := List.forall_mem_cons.1 htextual
      have hends := Json.ends_cons (b := 0x2C) rfl (items ++ 0x5D :: rest)
      rw [List.append_assoc, List.cons_append, fieldsFrom_item hfield hv hadmits hends]
      refine (ih hfields (Nat.succ.inj hlength) hrest rfl).trans ?_
      simp [labelled]
  | _ => cases hsense

/-! ## Whole messages -/

/-- The members that a value tells of: those of an object that are known, or the items of a list that has
one for each of them. -/
inductive Carries : Members → Bytes → Prop
  | object {members : Members} {bs : Bytes} : Shows known Json.depthLimit members bs →
    (members.map (·.1)).Nodup → Carries members bs
  | list {vs : List Json} {bs : Bytes} : Denotes Json.depthLimit (.value (.array vs)) bs →
    vs.length = known.length → Carries (known.zip vs) bs

theorem nodup_known_zip {vs : List Json} (h : vs.length = known.length) :
    ((known.zip vs).map (·.1)).Nodup := by
  rw [List.map_fst_zip (Nat.le_of_eq h.symm)]
  decide

/-- No name is told of twice. -/
theorem Carries.nodup {members : Members} (h : Carries members bs) : (members.map (·.1)).Nodup := by
  cases h with
  | object _ hn => exact hn
  | list _ hlength => exact nodup_known_zip hlength

theorem carries_of_membersFrom {fuel : Nat} {fields : InboundFields}
    (h : Reader.membersFrom shape 126 fuel true [] (ofMembers []) bs = .ok (fields, rest)) :
    ∃ value members, 0x7B :: bs = value ++ rest ∧ Carries members value ∧ Textual members ∧
      fields = ofMembers members := by
  obtain ⟨blanks, tail, members, rfl, hb, hremains, hn, htextual, rfl⟩ :=
    @remains_of_membersFrom 126 bs rest [] fuel true fields h List.nodup_nil
  have hn' : (members.map (·.1)).Nodup := by
    rw [List.append_nil, List.map_reverse] at hn
    exact (List.pairwise_reverse.1 hn).imp Ne.symm
  have hfields : ofMembers (members.reverse ++ []) = ofMembers members := by
    rw [List.append_nil]
    exact ofMembers_congr fun name _ => Table.get?_reverse hn' name
  rcases hremains with ⟨rfl, rfl⟩ | ⟨inner, hl, rfl⟩
  · exact ⟨_, [], by simp, .object (.empty hb) hn', htextual, hfields⟩
  · exact ⟨_, members, by simp [comma], .object (.members (lists_blanks_append hl hb)) hn',
      htextual, hfields⟩

theorem ofMembers_labelled {vs : List Json} (h : vs.length = known.length) :
    ofMembers ((labelled shape.fields vs).reverse ++ []) = ofMembers (known.zip vs) := by
  rw [List.append_nil]
  exact ofMembers_congr fun name _ => Table.get?_reverse (nodup_known_zip h) name

theorem carries_of_fieldsFrom {fields : InboundFields}
    (h : Reader.fieldsFrom shape 126 shape.fields 0 (ofMembers []) bs = .ok (fields, rest)) :
    ∃ value members, 0x5B :: bs = value ++ rest ∧ Carries members value ∧ Textual members ∧
      fields = ofMembers members := by
  obtain ⟨blanks, vs, hb, hlength, htextual, rfl, hitems⟩ :=
    @items_of_fieldsFrom 126 bs rest [] shape.fields 0 (fun _ h => h) fields h
  have hlength : vs.length = known.length := hlength.trans (List.length_map _).symm
  rcases hitems with ⟨rfl, -⟩ | ⟨items, hitems, rfl⟩
  · cases hlength
  · exact ⟨_, known.zip vs, by simp [comma],
      .list (.list (hitems.blanks_append (by simp [Sense.part]) hb)) hlength, htextual,
      ofMembers_labelled hlength⟩

/-- What is read of a text is one value of the text, with blanks around it. -/
theorem exists_carries_of_read {text : String} {fields : InboundFields} (h : read text = .ok fields) :
    ∃ before value after members, Utf8.encode text = before ++ (value ++ after) ∧ Blanks before ∧
      Blanks after ∧ Carries members value ∧ Textual members ∧ fields = ofMembers members := by
  obtain ⟨⟨fields', after⟩, hread, hstep⟩ := bind_eq_ok.1 h
  obtain ⟨⟨⟩, hfinish, hstep⟩ := bind_eq_ok.1 hstep
  cases hstep
  have ha := Json.blanks_of_finish (Reader.lift_eq_ok_iff.1 hfinish)
  unfold Reader.record at hread
  split at hread
  · cases hread
  · rename_i b tail hskip
    obtain ⟨before, hb, ht⟩ := Json.exists_of_skipSpace hskip
    suffices hvalue : ∃ value members, b :: tail = value ++ after ∧ Carries members value ∧
        Textual members ∧ fields = ofMembers members by
      obtain ⟨value, members, hvalue, hcarries⟩ := hvalue
      exact ⟨before, value, after, members, hvalue ▸ ht, hb, ha, hcarries⟩
    split at hread
    · rename_i hbrace
      exact hbrace ▸ carries_of_membersFrom hread
    · split at hread
      · rename_i hbracket
        exact hbracket ▸ carries_of_fieldsFrom hread
      · obtain ⟨misfit, hm⟩ :=
          Reader.exists_refuse_eq_error (β := InboundFields × Bytes) (.record shape.name) b tail
        rw [hm] at hread
        cases hread

/-- A list with one item for each known member is read like an object of them. -/
theorem read_of_list {text : String} {before list after : Bytes} {vs : List Json}
    (ht : Utf8.encode text = before ++ (list ++ after)) (hb : Blanks before) (ha : Blanks after)
    (h : Denotes Json.depthLimit (.value (.array vs)) list) (hlength : vs.length = known.length)
    (htextual : Textual (known.zip vs)) : read text = .ok (ofMembers (known.zip vs)) := by
  obtain ⟨items, rfl, hitems⟩ : ∃ items, list = 0x5B :: (items ++ [0x5D]) ∧
      Denotes 126 (.items vs) items := by
    cases h with
    | emptyList => cases hlength
    | list hitems => exact ⟨_, rfl, hitems⟩
  have hfields := @fieldsFrom_of_items 126 after [] shape.fields 0 (fun _ h => h) vs items hitems
    (hlength.trans (List.length_map _)) htextual
  rw [ofMembers_labelled hlength] at hfields
  rw [read, ht, Reader.whole, Reader.record, Json.skipSpace_append hb, List.cons_append,
    Json.skipSpace_cons rfl, List.append_assoc, List.singleton_append]
  have hfinish : Reader.lift (Json.finish after) = .ok () :=
    Reader.lift_eq_ok_iff.2 (Json.finish_of_blanks ha)
  exact bind_eq_ok.2 ⟨_, hfields, bind_eq_ok.2 ⟨(), hfinish, rfl⟩⟩

/-- A text is read just if it is an object or a list of the known members, with texts where texts have to
be; and then the known members are told as they stand there. -/
theorem read_eq_ok_iff {text : String} {fields : InboundFields} :
    read text = .ok fields ↔ ∃ before value after members,
      Utf8.encode text = before ++ (value ++ after) ∧ Blanks before ∧ Blanks after ∧
        Carries members value ∧ Textual members ∧ fields = ofMembers members := by
  refine ⟨exists_carries_of_read, ?_⟩
  rintro ⟨before, value, after, members, ht, hb, ha, hcarries, htextual, rfl⟩
  cases hcarries with
  | object h hn => exact (read_of_shows ht hb ha h hn).1 htextual
  | list h hlength => exact read_of_list ht hb ha h hlength htextual

end InboundFields

end VaultLink
