import VaultLink.Proofs.Proxy.Kinds

/-!
# Signals among other members

A signal is told by its action alone, but the other members are read before anyone looks at it. An object
with the action of a signal is that signal just if none of them is in the way (`Inbound.decode_signal_iff`):
their names are texts, no known one is there twice, and each known one holds a value that can stand under
its name.
-/

namespace VaultLink

open Json.Grammar

namespace Json

/-- A member that is written as the printer writes names. -/
def Grammar.Piece.quoted (name : String) (item : Bytes) : Piece :=
  ⟨(Utf8.encode name).flatMap escapeByte, item⟩

theorem Grammar.Piece.writes_quoted (name : String) {item : Bytes} (h : Derives .item item) :
    (Piece.quoted name item).Writes (quote name ++ 0x3A :: item) := by
  have hblanks : Blanks [] := List.forall_mem_nil _
  have := @Piece.Writes.intro (Piece.quoted name item) _ _ hblanks (body_of_spells (spells_escape name))
    hblanks h
  simpa only [Piece.quoted, quote, List.nil_append, List.cons_append, List.append_assoc] using this

theorem denotes_emptyList (depth : Nat) : Denotes (depth + 1) (.item (.array [])) [0x5B, 0x5D] := by
  have hblanks : Blanks [] := List.forall_mem_nil _
  have hvalue : Denotes (depth + 1) (.value (.array [])) (0x5B :: ([] ++ [0x5D])) := .emptyList hblanks
  exact hvalue.item_of_value

end Json

namespace InboundFields

open Json (Members)

/-- Members that can all be read: their names are texts, no known one is there twice, and each known one
holds a value that can stand under its name. -/
structure Tolerable (pieces : List Piece) : Prop where
  names : ∀ piece ∈ pieces, ∃ name : String, Spells piece.name name.toList
  once : pieces.Pairwise fun piece other =>
    ∀ name ∈ known, Spells piece.name name.toList → ¬ Spells other.name name.toList
  values : ∀ piece ∈ pieces, ∀ name ∈ known, Spells piece.name name.toList →
    ∃ v, Denotes 126 (.item v) piece.item ∧ admits name v = true

variable {pieces : List Piece} {members : Members}

/-- A known member that is gathered is among the members. -/
theorem mem_of_gather (h : Gather known 126 pieces members) {name : String} (hk : name ∈ known) {v : Json} :
    (name, v) ∈ members ↔
      ∃ piece ∈ pieces, Spells piece.name name.toList ∧ Denotes 126 (.item v) piece.item := by
  induction h with
  | nil => simp
  | @cons piece entry pieces members hg _ ih =>
    rw [List.mem_append, ih]
    simp only [List.mem_cons, exists_eq_or_imp]
    refine or_congr_left ?_
    cases hg with
    | @kept other w hs hk' hv =>
      simp only [Option.toList_some, List.mem_singleton, Prod.mk.injEq]
      constructor
      · rintro ⟨rfl, rfl⟩
        exact ⟨hs, hv⟩
      · rintro ⟨hs', hv'⟩
        exact ⟨hs'.unique hs, hv'.unique hv⟩
    | @passed other hs hk' =>
      simp only [Option.toList_none, List.not_mem_nil, false_iff]
      rintro ⟨hs', -⟩
      exact hk' (hs.unique hs' ▸ hk)

theorem tolerable_cons {piece : Piece} :
    Tolerable (piece :: pieces) ↔ Tolerable pieces ∧ (∃ name : String, Spells piece.name name.toList) ∧
      ∀ name ∈ known, Spells piece.name name.toList →
        (∃ v, Denotes 126 (.item v) piece.item ∧ admits name v = true) ∧
          ∀ other ∈ pieces, ¬ Spells other.name name.toList := by
  constructor
  · rintro ⟨hnames, honce, hvalues⟩
    obtain ⟨hname, hnames⟩ := List.forall_mem_cons.1 hnames
    obtain ⟨hvalue, hvalues⟩ := List.forall_mem_cons.1 hvalues
    obtain ⟨hfresh, honce⟩ := List.pairwise_cons.1 honce
    exact ⟨⟨hnames, honce, hvalues⟩, hname,
      fun name hk hs => ⟨hvalue name hk hs, fun other ho => hfresh other ho name hk hs⟩⟩
  · rintro ⟨⟨hnames, honce, hvalues⟩, hname, hpiece⟩
    exact ⟨List.forall_mem_cons.2 ⟨hname, hnames⟩,
      List.pairwise_cons.2 ⟨fun other ho name hk hs => (hpiece name hk hs).2 other ho, honce⟩,
      List.forall_mem_cons.2 ⟨fun name hk hs => (hpiece name hk hs).1, hvalues⟩⟩

theorem Tolerable.perm {others : List Piece} (hperm : pieces.Perm others) (h : Tolerable pieces) :
    Tolerable others := by
  obtain ⟨hnames, honce, hvalues⟩ := h
  have hsymm {piece other : Piece}
      (h : ∀ name ∈ known, Spells piece.name name.toList → ¬ Spells other.name name.toList) :
      ∀ name ∈ known, Spells other.name name.toList → ¬ Spells piece.name name.toList :=
    fun name hk ho hp => h name hk hp ho
  exact ⟨fun piece hp => hnames piece (hperm.mem_iff.2 hp), (hperm.pairwise_iff hsymm).1 honce,
    fun piece hp => hvalues piece (hperm.mem_iff.2 hp)⟩

/-- A readable member whose name nothing else has makes no difference, wherever it stands. -/
theorem tolerable_middle {front back : List Piece} {piece : Piece} {name : String} {v : Json}
    (hs : Spells piece.name name.toList) (hv : Denotes 126 (.item v) piece.item)
    (hadmits : admits name v = true)
    (honce : ∀ other ∈ front ++ back, ¬ Spells other.name name.toList) :
    Tolerable (front ++ piece :: back) ↔ Tolerable (front ++ back) := by
  have hcons : Tolerable (piece :: (front ++ back)) ↔ Tolerable (front ++ back) := by
    rw [tolerable_cons, and_iff_left_iff_imp]
    refine fun _ => ⟨⟨name, hs⟩, fun name' _ hs' => ?_⟩
    obtain rfl := hs.unique hs'
    exact ⟨⟨v, hv, hadmits⟩, honce⟩
  rw [← hcons]
  exact ⟨.perm List.perm_middle, .perm List.perm_middle.symm⟩

/-- Members are gathered, none of them twice and with texts where texts have to be, just if all of them can
be read. -/
theorem exists_gather_iff :
    (∃ members, Gather known 126 pieces members ∧ (members.map (·.1)).Nodup ∧ Textual members) ↔
      Tolerable pieces := by
  induction pieces with
  | nil =>
    exact ⟨fun _ => ⟨nofun, .nil, nofun⟩, fun _ => ⟨[], .nil, List.nodup_nil, List.forall_mem_nil _⟩⟩
  | cons piece pieces ih =>
    rw [tolerable_cons, ← ih]
    constructor
    · rintro ⟨members, hgather, hn, htextual⟩
      cases hgather with
      | @cons _ entry _ members hg hgather =>
        rw [List.map_append] at hn
        obtain ⟨-, hn', hdisjoint⟩ := List.nodup_append.1 hn
        obtain ⟨hentry, htextual⟩ := textual_append.1 htextual
        refine ⟨⟨members, hgather, hn', htextual⟩, ?_⟩
        have htolerable := ih.1 ⟨members, hgather, hn', htextual⟩
        cases hg with
        | @kept name v hs hk hv =>
          refine ⟨⟨name, hs⟩, fun other _ hs' => ?_⟩
          obtain rfl := hs.unique hs'
          refine ⟨⟨v, hv, hentry _ List.mem_cons_self⟩, fun piece hp hspells => ?_⟩
          -- A second member of this name would have been gathered as well.
          obtain ⟨w, hw, -⟩ := htolerable.values piece hp name hk hspells
          have hmem := (mem_of_gather hgather hk).2 ⟨piece, hp, hspells, hw⟩
          exact hdisjoint name List.mem_cons_self name (List.mem_map_of_mem hmem) rfl
        | @passed name hs hk =>
          exact ⟨⟨name, hs⟩, fun other hk' hs' => absurd (hs.unique hs' ▸ hk') hk⟩
    · rintro ⟨⟨members, hgather, hn, htextual⟩, ⟨name, hs⟩, hpiece⟩
      by_cases hk : name ∈ known
      · obtain ⟨⟨v, hv, hadmits⟩, hfresh⟩ := hpiece name hk hs
        refine ⟨(name, v) :: members, .cons (.kept hs hk hv) hgather,
          List.nodup_cons.2 ⟨fun hmem => ?_, hn⟩, List.forall_mem_cons.2 ⟨hadmits, htextual⟩⟩
        obtain ⟨⟨_, w⟩, hentry, rfl⟩ := List.mem_map.1 hmem
        obtain ⟨other, ho, hspells, -⟩ := (mem_of_gather hgather hk).1 hentry
        exact hfresh other ho hspells
      · exact ⟨_, .cons (.passed hs hk) hgather, hn, htextual⟩

end InboundFields

namespace Inbound

open InboundFields Json

variable {text : String} {inbound : Inbound}

/-- A text that is an object is a message just if all its members can be read and make that message. -/
theorem decode_eq_ok_iff_of_object {before object after : Bytes} {pieces : List Piece}
    (ht : Utf8.encode text = before ++ (object ++ after)) (hb : Blanks before)
    (ho : IsObjectOf pieces object) :
    decode text = .ok inbound ↔ Blanks after ∧ ∃ members, Gather known 126 pieces members ∧
      (members.map (·.1)).Nodup ∧ Textual members ∧ Made (told members) inbound := by
  have hobject : IsObject object := isObject_iff_exists.2 ⟨pieces, ho⟩
  rw [decode_eq_ok_iff]
  constructor
  · rintro ⟨members, ⟨before', value, after', ht', hb', ha', hc⟩, htextual, hm⟩
    -- Where the object starts and ends is told by the bytes, and so are its members.
    have he := ht.symm.trans ht'
    obtain ⟨inner, rfl, -⟩ := id hobject
    cases hc with
    | object hshows hn =>
      have hvalue := isObject_of_shows hshows
      obtain ⟨inner', rfl, -⟩ := id hvalue
      obtain ⟨hsame, rfl⟩ := hobject.unique hvalue (blanks_unique hb hb' rfl rfl he).2
      rw [← hsame] at hshows
      exact ⟨ha', members, (shows_iff ho).1 hshows, hn, htextual, hm⟩
    | list hvalue _ =>
      cases hvalue with
      | emptyList | list => cases (blanks_unique hb hb' rfl rfl he).2
  · rintro ⟨ha, members, hgather, hn, htextual, hm⟩
    exact ⟨members, ⟨before, object, after, ht, hb, ha, .object ((shows_iff ho).2 hgather) hn⟩,
      htextual, hm⟩

/-- An object with the action of a signal is that signal just if the other members are not in the way, and
else it is malformed. -/
theorem decode_signal_iff {before object after : Bytes} {front back : List Piece} {action : Piece}
    {s : Signal} (ht : Utf8.encode text = before ++ (object ++ after)) (hb : Blanks before)
    (ha : Blanks after) (ho : IsObjectOf (front ++ action :: back) object)
    (hname : Spells action.name "action".toList)
    (hvalue : Denotes 126 (.item (.string s.action.wireName)) action.item)
    (honce : ∀ piece ∈ front ++ back, ¬ Spells piece.name "action".toList) :
    (decode text = .ok (.signal s) ↔ Tolerable (front ++ back)) ∧
      (¬ Tolerable (front ++ back) → ∃ cause, decode text = .error (.malformedMessage cause)) := by
  have hk : "action" ∈ known := by decide
  have hadmits : admits "action" (.string s.action.wireName) = true := by cases s <;> decide
  have htold {members : Members} (hgather : Gather known 126 (front ++ action :: back) members)
      (hn : (members.map (·.1)).Nodup) :
      told members "action" = some (.string s.action.wireName) := by
    have hmem := (mem_of_gather hgather hk).2
      ⟨action, List.mem_append_right _ List.mem_cons_self, hname, hvalue⟩
    rw [told, (Table.get?_eq_some_iff hn).2 hmem]
    rfl
  rw [← tolerable_middle hname hvalue hadmits honce]
  refine ⟨?_, fun h => exists_cause_of_forall_ne fun inbound hdecoded => ?_⟩
  · rw [decode_eq_ok_iff_of_object ht hb ho, ← exists_gather_iff]
    constructor
    · rintro ⟨-, members, hgather, hn, htextual, -⟩
      exact ⟨members, hgather, hn, htextual⟩
    · rintro ⟨members, hgather, hn, htextual⟩
      exact ⟨ha, members, hgather, hn, htextual, .signal (htold hgather hn)⟩
  · obtain ⟨-, members, hgather, hn, htextual, -⟩ := (decode_eq_ok_iff_of_object ht hb ho).1 hdecoded
    exact h (exists_gather_iff.1 ⟨members, hgather, hn, htextual⟩)

/-- A signal with an empty list of some name beside it. -/
def besideList (name : String) : Bytes :=
  0x7B :: (quote "action" ++ 0x3A :: quote "database-locked" ++
    0x2C :: (quote name ++ 0x3A :: [0x5B, 0x5D]) ++ [0x7D])

theorem isObjectOf_besideList (name : String) :
    IsObjectOf ([] ++ .quoted "action" (quote "database-locked") :: [.quoted name [0x5B, 0x5D]])
      (besideList name) :=
  ⟨_, rfl, .inr (.more (Piece.writes_quoted _ (derives_of_denotes (denotes_quote 0 _)))
    (.last (Piece.writes_quoted _ (derives_of_denotes (denotes_emptyList 0)))))⟩

/-- A list under a name that is not known is ignored. -/
theorem tolerable_list {name : String} (h : name ∉ known) :
    Tolerable ([] ++ [Piece.quoted name [0x5B, 0x5D]]) := by
  have hs : Spells (Piece.quoted name [0x5B, 0x5D]).name name.toList := spells_escape name
  refine ⟨?_, List.pairwise_singleton _ _, ?_⟩
  · rintro piece (_ | ⟨_, ⟨⟩⟩)
    exact ⟨name, hs⟩
  · rintro piece (_ | ⟨_, ⟨⟩⟩) name' hk hs'
    exact absurd (hs.unique hs' ▸ hk) h

/-- A list under a name that has to be a text is in the way. -/
theorem not_tolerable_list {name : String} (h : name ∈ textNames) :
    ¬ Tolerable ([] ++ [Piece.quoted name [0x5B, 0x5D]]) := by
  rintro ⟨-, -, hvalues⟩
  have hk : name ∈ known := (by decide : ∀ name ∈ textNames, name ∈ known) name h
  obtain ⟨v, hv, hadmits⟩ := hvalues _ List.mem_cons_self name hk (spells_escape name)
  rw [hv.unique (denotes_emptyList 125)] at hadmits
  simp [admits, h, counted, asString?] at hadmits

theorem not_spells_action {name : String} {item : Bytes} (h : name ≠ "action") :
    ∀ piece ∈ [] ++ [Piece.quoted name item], ¬ Spells piece.name "action".toList := by
  rintro piece (_ | ⟨_, ⟨⟩⟩) hs
  exact h ((spells_escape name).unique hs)

/-- The signal is told beside a list of an unknown name, and not beside a list where a text has to be. -/
theorem decode_signal_besideList :
    decode "\x7b\"action\":\"database-locked\",\"list\":[]\x7d" = .ok (.signal .databaseLocked) ∧
    ∃ cause, decode "\x7b\"action\":\"database-locked\",\"error\":[]\x7d" =
      .error (.malformedMessage cause) := by
  have hblanks : Blanks [] := List.forall_mem_nil _
  have hbeside (name text : String) (h : name ≠ "action") (ht : Utf8.encode text = besideList name) :=
    @decode_signal_iff text [] (besideList name) [] [] _ _ .databaseLocked
      (by rw [List.nil_append, List.append_nil, ht]) hblanks hblanks (isObjectOf_besideList name)
      (spells_escape "action") (denotes_quote 126 _) (not_spells_action h)
  exact ⟨(hbeside "list" _ (by decide) (by decide)).1.2 (tolerable_list (by decide)),
    (hbeside "error" _ (by decide) (by decide)).2 (not_tolerable_list (by decide))⟩

/-- The action of a signal does not make an object that signal. -/
theorem not_forall_decode_signal :
    ¬ ∀ (text : String) (object : Bytes) (front back : List Piece) (action : Piece) (s : Signal),
      Utf8.encode text = object → IsObjectOf (front ++ action :: back) object →
      Spells action.name "action".toList →
      Denotes 126 (.item (.string s.action.wireName)) action.item →
      (∀ piece ∈ front ++ back, ¬ Spells piece.name "action".toList) →
      decode text = .ok (.signal s) := fun h => by
  have htext := h "\x7b\"action\":\"database-locked\",\"error\":[]\x7d" _ [] _ _ .databaseLocked
    (by decide) (isObjectOf_besideList "error") (spells_escape "action") (denotes_quote 126 _)
    (not_spells_action (by decide))
  exact absurd htext (by decide +kernel)

end Inbound

end VaultLink
