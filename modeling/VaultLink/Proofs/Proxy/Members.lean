import VaultLink.Proofs.Json.Reading
import VaultLink.Proxy.Inbound

/-!
# The known members of a message

A message is read member by member, but what is read does not depend on how its members are ordered and
what stands between them: the known members are each what the object shows under their names
(`InboundFields.read_of_shows`). Nothing is read if a member that has to be a text is anything else but
null.

* `InboundFields.ofMembers`: the known members of an object, looked up by their names;
* `InboundFields.Textual`: the members that have to be texts are.
-/

namespace VaultLink.InboundFields

open Json (Reader Members comma Ends)
open Json.Grammar
open Json.Reader (Reads Refuses)

/-- The names of the members that have to be texts. -/
def textNames : List String := ["action", "publicKey", "nonce", "message", "version", "error"]

/-- The names of the members of a message. -/
def known : List String := shape.fields.map (·.name)

/-- A value, unless it is null. -/
def counted : Json → Option Json
  | .null => none
  | v => some v

/-- What an object tells under a name; null is nothing. -/
def told (members : Members) (name : String) : Option Json := members.get? name >>= counted

/-- The text that an object tells under a name. -/
def text? (members : Members) (name : String) : Option String := told members name >>= Json.asString?

/-- The known members of an object. -/
def ofMembers (members : Members) : InboundFields where
  action := text? members "action"
  publicKey := text? members "publicKey"
  nonce := text? members "nonce"
  message := text? members "message"
  success := told members "success"
  version := text? members "version"
  error := text? members "error"
  errorCode := told members "errorCode"

/-- Whether a value can stand under a name: some names are only for texts. -/
def admits (name : String) (v : Json) : Bool :=
  name ∉ textNames || ((counted v).all fun v => v.asString?.isSome)

/-- Every member that has to be a text is a text or null. -/
def Textual (members : Members) : Prop := ∀ member ∈ members, admits member.1 member.2 = true

instance (members : Members) : Decidable (Textual members) :=
  List.decidableBAll (fun member : String × Json => admits member.1 member.2 = true) members

/-! ## One member -/

variable {depth : Nat} {item : Bytes} {v : Json}

theorem reads_into {α : Type} {reader : Reader α} {bs : Bytes} {a : α}
    (h : Reads reader depth bs a) (put : InboundFields → α → InboundFields) (fields : InboundFields) :
    Reads (into reader put fields) depth bs (put fields a) := by
  intro rest hr
  obtain ⟨after, ha, hread⟩ := h rest hr
  exact ⟨after, ha, by rw [into, hread]; rfl⟩

theorem refuses_into {α : Type} {reader : Reader α} {bs : Bytes} (h : Refuses reader depth bs)
    (put : InboundFields → α → InboundFields) (fields : InboundFields) :
    Refuses (into reader put fields) depth bs := by
  intro rest hr
  obtain ⟨misfit, hread⟩ := h rest hr
  exact ⟨misfit, by rw [into, hread]; rfl⟩

/-- A member that may be any value. -/
theorem reads_counted (h : Denotes depth (.item v) item) :
    Reads (.optional .value) depth item (counted v) := by
  have hvalue (hv : v ≠ .null) : Reads (.optional .value) depth item (some v) :=
    Reader.reads_optional h hv fun _ => Reader.reads_value
  cases v with
  | null => exact Reader.reads_optional_null _ h
  | bool | number | string | array | object => exact hvalue nofun

/-- A member that has to be a text. -/
theorem reads_text (h : Denotes depth (.item v) item) :
    if (counted v).all fun v => v.asString?.isSome then
      Reads (.optional .string) depth item (counted v >>= Json.asString?)
    else Refuses (.optional .string) depth item := by
  have hrefuses (hv : v ≠ .null) (hs : v.asString? = none) :
      Refuses (.optional .string) depth item :=
    Reader.refuses_optional h hv fun _ hbare => Reader.refuses_string hbare hs
  cases v with
  | null => exact Reader.reads_optional_null _ h
  | string => exact Reader.reads_optional h nofun fun _ => Reader.reads_string
  | bool | number | array | object => exact hrefuses nofun rfl

theorem told_cons (members : Members) (name other : String) :
    told ((name, v) :: members) other = if name = other then counted v else told members other := by
  rw [told, Table.get?]
  split <;> rfl

theorem read_text {name : String} (h : Denotes depth (.item v) item) (hname : name ∈ textNames)
    {put : InboundFields → Option String → InboundFields} {fields next : InboundFields}
    (hput : put fields (counted v >>= Json.asString?) = next) :
    if admits name v then Reads (into (.optional .string) put fields) depth item next
    else Refuses (into (.optional .string) put fields) depth item := by
  have hread := reads_text h
  simp only [admits, hname, not_true_eq_false, decide_false, Bool.false_or]
  rw [← hput]
  split
  · rename_i ha
    rw [if_pos ha] at hread
    exact reads_into hread put _
  · rename_i ha
    rw [if_neg ha] at hread
    exact refuses_into hread put _

theorem read_value {name : String} (h : Denotes depth (.item v) item) (hname : name ∉ textNames)
    {put : InboundFields → Option Json → InboundFields} {fields next : InboundFields}
    (hput : put fields (counted v) = next) :
    if admits name v then Reads (into (.optional .value) put fields) depth item next
    else Refuses (into (.optional .value) put fields) depth item := by
  rw [← hput, admits, if_pos (by simp [hname])]
  exact reads_into (reads_counted h) put _

/-- A known member is read if it can stand under its name, and then it is told with those before it. -/
theorem read_member {name : String} {field : Json.Field (InboundFields → Reader InboundFields)}
    (hf : shape.find? name = some field) (h : Denotes depth (.item v) item) (seen : Members) :
    if admits name v then Reads (field.read (ofMembers seen)) depth item (ofMembers ((name, v) :: seen))
    else Refuses (field.read (ofMembers seen)) depth item := by
  obtain ⟨hmem, rfl⟩ := Json.Record.mem_of_find?_eq_some hf
  simp only [shape, List.mem_cons, List.not_mem_nil, or_false] at hmem
  -- In each case one field is replaced, and the others are told as before.
  rcases hmem with rfl | rfl | rfl | rfl | rfl | rfl | rfl | rfl
  all_goals
    dsimp only
    first
    | refine read_text h ?_ ?_
      · decide
      · simp [ofMembers, text?, told_cons]
    | refine read_value h ?_ ?_
      · decide
      · simp [ofMembers, text?, told_cons]

/-! ## All members -/

theorem missing?_eq_none (seen : List String) : shape.missing? seen = none := by
  simp [shape, Json.Record.missing?]

theorem textual_append {as bs : Members} : Textual (as ++ bs) ↔ Textual as ∧ Textual bs :=
  List.forall_mem_append

/-- The next member is read if its name is known and passed over if it is not. -/
theorem membersFrom_entry {entry : Option (String × Json)} {member : Bytes}
    (h : Entry known depth entry member) {seen : Members}
    (hn : ((entry.toList ++ seen).map (·.1)).Nodup) (fuel : Nat) (first : Bool) {rest : Bytes}
    (hr : Ends rest) :
    (Textual entry.toList →
      Reader.membersFrom shape depth (fuel + 1) first (seen.map (·.1)) (ofMembers seen)
          (comma first ++ (member ++ rest)) =
        Reader.membersFrom shape depth fuel false ((entry.toList ++ seen).map (·.1))
          (ofMembers (entry.toList ++ seen)) rest) ∧
    (¬ Textual entry.toList → ∃ misfit,
      Reader.membersFrom shape depth (fuel + 1) first (seen.map (·.1)) (ofMembers seen)
        (comma first ++ (member ++ rest)) = .error misfit) := by
  cases h with
  | @kept name v item member hk hm hv =>
    obtain ⟨field, hf⟩ : ∃ field, shape.find? name = some field :=
      Option.ne_none_iff_exists'.1 fun hnone => Json.Record.find?_eq_none_iff.1 hnone hk
    have hfresh : (seen.map (·.1)).contains name = false := by
      simpa using (List.nodup_cons.1 hn).1
    have htextual : Textual (some (name, v)).toList ↔ admits name v = true := by
      simp [Textual]
    have hread := read_member hf hv seen
    rw [Reader.membersFrom_field hf hfresh hm, htextual]
    refine ⟨fun ha => ?_, fun ha => ?_⟩
    · rw [if_pos ha] at hread
      obtain ⟨after, hafter, hread⟩ := hread rest hr
      rw [hread]
      exact Reader.membersFrom_blanks hafter ..
    · rw [if_neg ha] at hread
      obtain ⟨misfit, hread⟩ := hread rest hr
      exact ⟨misfit, by rw [hread]; rfl⟩
  | passed hk hm hi =>
    have hf := Json.Record.find?_eq_none_iff.2 hk
    exact ⟨fun _ => Reader.membersFrom_passed hf hm hi _ _ _ _ hr,
      fun h => absurd (List.forall_mem_nil _) h⟩

/-- Members are read one after the other, up to the first that cannot stand under its name. -/
theorem membersFrom_of_lists {members : Members} {bs : Bytes} (h : Lists known depth members bs)
    {fuel : Nat} (hfuel : bs.length < fuel) (first : Bool) {seen : Members}
    (hn : ((members.reverse ++ seen).map (·.1)).Nodup) (rest : Bytes) :
    (Textual members →
      Reader.membersFrom shape depth fuel first (seen.map (·.1)) (ofMembers seen)
        (comma first ++ (bs ++ 0x7D :: rest)) = .ok (ofMembers (members.reverse ++ seen), rest)) ∧
    (¬ Textual members → ∃ misfit,
      Reader.membersFrom shape depth fuel first (seen.map (·.1)) (ofMembers seen)
        (comma first ++ (bs ++ 0x7D :: rest)) = .error misfit) := by
  have hreverse (entry : Option (String × Json)) : entry.toList.reverse = entry.toList := by
    cases entry <;> rfl
  induction h generalizing fuel first seen with
  | @last entry member he =>
    obtain ⟨fuel, rfl⟩ := Nat.exists_eq_succ_of_ne_zero (Nat.ne_zero_of_lt hfuel)
    obtain ⟨more, rfl⟩ := Nat.exists_eq_succ_of_ne_zero
      (show fuel ≠ 0 by have := he.length_pos; omega)
    rw [hreverse] at hn ⊢
    have hentry := membersFrom_entry he hn (more + 1) first (Json.ends_cons (b := 0x7D) rfl rest)
    refine ⟨fun ht => ?_, hentry.2⟩
    rw [hentry.1 ht, Reader.membersFrom_closed (missing?_eq_none _)]
  | @more entry ms member members he _ ih =>
    obtain ⟨fuel, rfl⟩ := Nat.exists_eq_succ_of_ne_zero (Nat.ne_zero_of_lt hfuel)
    simp only [List.length_append, List.length_cons] at hfuel
    rw [List.reverse_append, hreverse, List.append_assoc] at hn ⊢
    have hn' : ((entry.toList ++ seen).map (·.1)).Nodup := by
      rw [List.map_append] at hn
      exact (List.nodup_append.1 hn).2.1
    have hentry := membersFrom_entry he hn' fuel first
      (Json.ends_cons (b := 0x2C) rfl (members ++ 0x7D :: rest))
    have htail := ih (show members.length < fuel by omega) false hn
    rw [List.append_assoc, List.cons_append, textual_append]
    refine ⟨fun ht => (hentry.1 ht.1).trans (htail.1 ht.2), fun ht => ?_⟩
    by_cases he : Textual entry.toList
    · rw [hentry.1 he]
      exact htail.2 fun hm => ht ⟨he, hm⟩
    · exact hentry.2 he

/-! ## Whole messages -/

theorem ofMembers_congr {as bs : Members}
    (h : ∀ name ∈ known, Table.get? name as = Table.get? name bs) : ofMembers as = ofMembers bs := by
  have htold (name : String) (hk : name ∈ known) : told as name = told bs name := by
    rw [told, h name hk, told]
  simp only [ofMembers, text?]
  rw [htold "action" (by decide), htold "publicKey" (by decide), htold "nonce" (by decide),
    htold "message" (by decide), htold "success" (by decide), htold "version" (by decide),
    htold "error" (by decide), htold "errorCode" (by decide)]

/-- What is read of a message depends on the values of its known members only. -/
theorem read_of_shows {text : String} {before object after : Bytes} {members : Members}
    (ht : Utf8.encode text = before ++ (object ++ after)) (hb : Blanks before) (ha : Blanks after)
    (h : Shows known Json.depthLimit members object) (hn : (members.map (·.1)).Nodup) :
    (Textual members → read text = .ok (ofMembers members)) ∧
      (¬ Textual members → ∃ misfit, read text = .error misfit) := by
  obtain ⟨inner, rfl, hinner⟩ : ∃ inner, object = 0x7B :: (inner ++ [0x7D]) ∧
      (Blanks inner ∧ members = [] ∨ Lists known 126 members inner) := by
    cases h with
    | empty hb => exact ⟨_, rfl, .inl ⟨hb, rfl⟩⟩
    | members hl => exact ⟨_, rfl, .inr hl⟩
  have hwhole : read text = Reader.membersFrom shape 126
        ((inner ++ 0x7D :: after).length + 1) true [] (ofMembers []) (inner ++ 0x7D :: after) >>=
      fun read => Reader.lift (Json.finish read.2) >>= fun _ => pure read.1 := by
    rw [read, ht, Reader.whole, Reader.record, Json.skipSpace_append hb, List.cons_append,
      Json.skipSpace_cons rfl]
    simp only [if_true, List.append_assoc, List.singleton_append]
    rfl
  have hfinish : Json.finish after = .ok () := Json.finish_of_blanks ha
  have hreverse : ofMembers (members.reverse ++ []) = ofMembers members := by
    rw [List.append_nil]
    exact ofMembers_congr fun name _ => Table.get?_reverse hn name
  have hloop : (Textual members → Reader.membersFrom shape 126
        ((inner ++ 0x7D :: after).length + 1) true [] (ofMembers []) (inner ++ 0x7D :: after) =
          .ok (ofMembers members, after)) ∧
      (¬ Textual members → ∃ misfit, Reader.membersFrom shape 126
        ((inner ++ 0x7D :: after).length + 1) true [] (ofMembers []) (inner ++ 0x7D :: after) =
          .error misfit) := by
    rcases hinner with ⟨hblanks, rfl⟩ | hl
    · refine ⟨fun _ => ?_, fun ht => absurd (List.forall_mem_nil _) ht⟩
      rw [Reader.membersFrom_blanks hblanks, Reader.membersFrom_closed (missing?_eq_none _)]
    · rw [← hreverse]
      have hn' : ((members.reverse ++ ([] : Members)).map (·.1)).Nodup := by
        rw [List.append_nil, List.map_reverse]
        exact List.pairwise_reverse.2 (hn.imp Ne.symm)
      exact membersFrom_of_lists hl (by simp only [List.length_append]; omega) true hn' after
  refine ⟨fun htext => ?_, fun htext => ?_⟩
  · rw [hwhole, hloop.1 htext]
    simp only [bind, Except.bind, hfinish, Reader.lift, pure, Except.pure]
  · obtain ⟨misfit, hread⟩ := hloop.2 htext
    exact ⟨misfit, by rw [hwhole, hread]; rfl⟩

/-- An object of strings, as it is written, tells what its members say. -/
theorem read_render {text : String} {members : Members} (h : Json.AreTexts members)
    (hn : (members.map (·.1)).Nodup) (ht : Utf8.encode text = Json.render (.object members)) :
    read text = .ok (ofMembers members) := by
  have hshows := Json.shows_render h known 126
  have hsub : ((members.filter fun member => decide (member.1 ∈ known)).map (·.1)).Nodup :=
    List.Pairwise.sublist (List.filter_sublist.map _) hn
  have htextual : Textual (members.filter fun member => decide (member.1 ∈ known)) := by
    intro member hm
    obtain ⟨text, hv⟩ := h member (List.mem_filter.1 hm).1
    rw [hv]
    simp [admits, counted, Json.asString?]
  have htext : Utf8.encode text = [] ++ (Json.render (.object members) ++ []) := by
    rw [ht, List.append_nil, List.nil_append]
  rw [(read_of_shows htext (List.forall_mem_nil _) (List.forall_mem_nil _) hshows hsub).1 htextual]
  refine congrArg _ (ofMembers_congr fun name hk => ?_)
  exact Table.get?_filter (p := fun name => decide (name ∈ known)) (decide_eq_true hk) members

end VaultLink.InboundFields
