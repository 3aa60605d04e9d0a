import VaultLink.Proofs.Json.Accepting
import VaultLink.Proofs.Json.Sound

/-!
# The members of an object, piece by piece

By form alone an object falls into its members in one way only (`Row.unique`), whether or not they stand
for anything. So what an object shows is told by what each of its pieces gives (`shows_iff`).
-/

namespace VaultLink.Json

open Grammar

namespace Grammar

/-- A member as it is written: what stands between the quotes of its name, and the item after its
colon. -/
structure Piece where
  name : Bytes
  item : Bytes

/-- The bytes of a member. -/
inductive Piece.Writes (piece : Piece) : Bytes → Prop
  | intro {before after : Bytes} : Blanks before → Body piece.name → Blanks after →
    Derives .item piece.item →
    Writes piece (before ++ 0x22 :: (piece.name ++ 0x22 :: (after ++ 0x3A :: piece.item)))

/-- Members with commas between them. -/
inductive Row : List Piece → Bytes → Prop
  | last {piece : Piece} {member : Bytes} : piece.Writes member → Row [piece] member
  | more {piece : Piece} {pieces : List Piece} {member members : Bytes} : piece.Writes member →
    Row pieces members → Row (piece :: pieces) (member ++ 0x2C :: members)

/-- An object with these members. -/
def IsObjectOf (pieces : List Piece) (bs : Bytes) : Prop :=
  ∃ inner, bs = 0x7B :: (inner ++ [0x7D]) ∧ (pieces = [] ∧ Blanks inner ∨ Row pieces inner)

theorem exists_row_of_derives {part : Part} {bs : Bytes} (h : Derives part bs) :
    (part = .member → ∃ piece : Piece, piece.Writes bs) ∧
      (part = .members → ∃ pieces, Row pieces bs) := by
  induction h with
  | @member before name after item hb hn ha hi =>
    exact ⟨fun _ => ⟨⟨name, item⟩, .intro hb hn ha hi⟩, nofun⟩
  | lastMember _ ih =>
    obtain ⟨piece, hw⟩ := ih.1 rfl
    exact ⟨nofun, fun _ => ⟨[piece], .last hw⟩⟩
  | moreMembers _ _ ih ihs =>
    obtain ⟨piece, hw⟩ := ih.1 rfl
    obtain ⟨pieces, hrow⟩ := ihs.2 rfl
    exact ⟨nofun, fun _ => ⟨piece :: pieces, .more hw hrow⟩⟩
  | _ => exact ⟨nofun, nofun⟩

theorem Piece.Writes.derives {piece : Piece} {member : Bytes} (h : piece.Writes member) :
    Derives .member member := by
  obtain ⟨hb, hn, ha, hi⟩ := h
  exact .member hb hn ha hi

theorem Row.derives {pieces : List Piece} {members : Bytes} (h : Row pieces members) :
    Derives .members members := by
  induction h with
  | last hw => exact .lastMember hw.derives
  | more hw _ ih => exact .moreMembers hw.derives ih

/-- Every object falls into members. -/
theorem isObject_iff_exists {bs : Bytes} : IsObject bs ↔ ∃ pieces, IsObjectOf pieces bs := by
  constructor
  · rintro ⟨inner, rfl, hb | hm⟩
    · exact ⟨[], inner, rfl, .inl ⟨rfl, hb⟩⟩
    · obtain ⟨pieces, hrow⟩ := (exists_row_of_derives hm).2 rfl
      exact ⟨pieces, inner, rfl, .inr hrow⟩
  · rintro ⟨pieces, inner, rfl, ⟨-, hb⟩ | hrow⟩
    · exact ⟨inner, rfl, .inl hb⟩
    · exact ⟨inner, rfl, .inr hrow.derives⟩

/-! ## One way only -/

variable {xs ys : Bytes}

/-- A closing quote is the first one that no escape covers. -/
theorem Body.unique {body body' : Bytes} (h : Body body) (h' : Body body')
    (he : body ++ 0x22 :: xs = body' ++ 0x22 :: ys) : body = body' ∧ xs = ys := by
  have hscan {body : Bytes} (h : Body body) (xs : Bytes) :
      Scan.advance ⟨[], .text false⟩ (body ++ 0x22 :: xs) = .complete xs := by
    rw [Scan.advance_append_of_running (Scan.advance_body false h)]
    rfl
  have hrest := hscan h xs
  rw [he, hscan h' ys] at hrest
  cases hrest
  exact ⟨List.append_cancel_right he, rfl⟩

/-- Where blanks end is told by what follows them. -/
theorem blanks_unique {as bs : Bytes} {b c : UInt8} (ha : Blanks as) (hb : Blanks bs)
    (hs : isSpace b = false) (hs' : isSpace c = false) (he : as ++ b :: xs = bs ++ c :: ys) :
    as = bs ∧ b :: xs = c :: ys := by
  have hrest := congrArg skipSpace he
  rw [skipSpace_append ha, skipSpace_append hb, skipSpace_cons hs, skipSpace_cons hs'] at hrest
  rw [hrest] at he
  exact ⟨List.append_cancel_right he, hrest⟩

/-- Bytes that start with a comma or with the end of an object. -/
def Stops (bs : Bytes) : Prop := ∃ b rest, bs = b :: rest ∧ (b = 0x2C ∨ b = 0x7D)

/-- Where an item ends inside an object is told by its form. -/
theorem item_unique {item item' : Bytes} (h : Derives .item item) (h' : Derives .item item')
    (hx : Stops xs) (hy : Stops ys) (he : item ++ xs = item' ++ ys) : item = item' ∧ xs = ys := by
  have hskip {item xs : Bytes} (h : Derives .item item) (hx : Stops xs) :
      ∃ rest, Scan.skip (item ++ xs) = .ok rest ∧ skipSpace rest = xs := by
    obtain ⟨b, rest, rfl, hb⟩ := hx
    have hends : Ends (b :: rest) := ends_cons (by rcases hb with rfl | rfl <;> rfl) rest
    have hspace : isSpace b = false := by rcases hb with rfl | rfl <;> rfl
    obtain ⟨after, ha, hskip⟩ := Scan.skip_of_derives h hends
    exact ⟨_, hskip, by rw [skipSpace_append ha, skipSpace_cons hspace]⟩
  obtain ⟨rest, hrest, hxs⟩ := hskip h hx
  obtain ⟨rest', hrest', hys⟩ := hskip h' hy
  rw [he, hrest'] at hrest
  cases hrest
  obtain rfl : xs = ys := hxs.symm.trans hys
  exact ⟨List.append_cancel_right he, rfl⟩

theorem Piece.Writes.unique {piece piece' : Piece} {member member' : Bytes}
    (h : piece.Writes member) (h' : piece'.Writes member') (hx : Stops xs) (hy : Stops ys)
    (he : member ++ xs = member' ++ ys) : piece = piece' ∧ xs = ys := by
  obtain ⟨hb, hn, ha, hi⟩ := h
  obtain ⟨hb', hn', ha', hi'⟩ := h'
  simp only [List.append_assoc, List.cons_append] at he
  obtain ⟨-, hquote⟩ := blanks_unique hb hb' rfl rfl he
  obtain ⟨hname, hcolon⟩ := hn.unique hn' (List.cons.inj hquote).2
  obtain ⟨-, hcolon⟩ := blanks_unique ha ha' rfl rfl hcolon
  obtain ⟨hitem, hrest⟩ := item_unique hi hi' hx hy (List.cons.inj hcolon).2
  obtain ⟨name, item⟩ := piece
  cases hname
  cases hitem
  exact ⟨rfl, hrest⟩

/-- The members of an object are told by its bytes. -/
theorem Row.unique {pieces pieces' : List Piece} {members members' : Bytes} (h : Row pieces members)
    (h' : Row pieces' members') (he : members ++ 0x7D :: xs = members' ++ 0x7D :: ys) :
    pieces = pieces' := by
  have hstop {b : UInt8} (hb : b = 0x2C ∨ b = 0x7D) (rest : Bytes) : Stops (b :: rest) :=
    ⟨b, rest, rfl, hb⟩
  induction h generalizing pieces' members' with
  | last hw =>
    cases h' with
    | last hw' => rw [(hw.unique hw' (hstop (.inr rfl) _) (hstop (.inr rfl) _) he).1]
    | more hw' _ =>
      rw [List.append_assoc] at he
      cases (hw.unique hw' (hstop (.inr rfl) _) (hstop (.inl rfl) _) he).2
  | more hw _ ih =>
    rw [List.append_assoc] at he
    cases h' with
    | last hw' => cases (hw.unique hw' (hstop (.inl rfl) _) (hstop (.inr rfl) _) he).2
    | more hw' hrow' =>
      rw [List.append_assoc] at he
      obtain ⟨hpiece, he⟩ := hw.unique hw' (hstop (.inl rfl) _) (hstop (.inl rfl) _) he
      rw [hpiece, ih hrow' (List.cons.inj he).2]

/-- One object ends where the other one does. -/
theorem IsObject.unique {bs bs' : Bytes} (h : IsObject bs) (h' : IsObject bs')
    (he : bs ++ xs = bs' ++ ys) : bs = bs' ∧ xs = ys := by
  have hscan {bs : Bytes} (h : IsObject bs) (xs : Bytes) :
      Scan.advance Scan.start (bs ++ xs) = .complete xs := by
    rw [Scan.advance_append, Scan.advance_object h]
    rfl
  have hrest := hscan h xs
  rw [he, hscan h' ys] at hrest
  cases hrest
  exact ⟨List.append_cancel_right he, rfl⟩

theorem IsObjectOf.unique {pieces pieces' : List Piece} {bs : Bytes} (h : IsObjectOf pieces bs)
    (h' : IsObjectOf pieces' bs) : pieces = pieces' := by
  obtain ⟨inner, rfl, hinner⟩ := h
  obtain ⟨inner', he, hinner'⟩ := h'
  obtain rfl : inner = inner' := List.append_cancel_right (List.cons.inj he).2
  -- Between the braces there is a quote just if there are members.
  have hquote {pieces : List Piece} {inner : Bytes} (h : Row pieces inner) : ¬ Blanks inner := by
    have hmember {piece : Piece} {member : Bytes} (hw : piece.Writes member) : 0x22 ∈ member := by
      obtain ⟨-, -, -, -⟩ := hw
      simp
    intro hb
    have hmem : 0x22 ∈ inner := by
      cases h with
      | last hw => exact hmember hw
      | more hw _ => exact List.mem_append_left _ (hmember hw)
    exact absurd (hb _ hmem) (by decide)
  rcases hinner with ⟨rfl, hb⟩ | hrow
  · rcases hinner' with ⟨rfl, -⟩ | hrow'
    · rfl
    · exact absurd hb (hquote hrow')
  · rcases hinner' with ⟨-, hb⟩ | hrow'
    · exact absurd hb (hquote hrow)
    · exact @Row.unique [] [] _ _ _ _ hrow hrow' rfl

/-- What a string spells is told by its bytes. -/
theorem Spells.unique {body : Bytes} {s t : String} (hs : Spells body s.toList)
    (ht : Spells body t.toList) : s = t := by
  have h := readString_of_spells hs []
  rw [readString_of_spells ht []] at h
  cases h
  rfl

/-- What an item stands for is told by its bytes. -/
theorem Denotes.unique {depth : Nat} {item : Bytes} {v w : Json}
    (hv : Denotes depth (.item v) item) (hw : Denotes depth (.item w) item) : v = w := by
  obtain ⟨after, -, h⟩ := readValue_of_denotes hv ends_nil
  obtain ⟨after', -, h'⟩ := readValue_of_denotes hw ends_nil
  exact (Prod.mk.inj (Except.ok.inj (h.symm.trans h'))).1

/-! ## What the members give -/

variable {known : List String} {depth : Nat}

/-- What a member gives: its value if its name is known, and nothing if it is another text. -/
inductive Piece.Gives (known : List String) (depth : Nat) (piece : Piece) :
    Option (String × Json) → Prop
  | kept {name : String} {v : Json} : Spells piece.name name.toList → name ∈ known →
    Denotes depth (.item v) piece.item → Gives known depth piece (some (name, v))
  | passed {name : String} : Spells piece.name name.toList → name ∉ known →
    Gives known depth piece none

/-- What all members give together. -/
inductive Gather (known : List String) (depth : Nat) : List Piece → Members → Prop
  | nil : Gather known depth [] []
  | cons {piece : Piece} {entry : Option (String × Json)} {pieces : List Piece} {members : Members} :
    piece.Gives known depth entry → Gather known depth pieces members →
    Gather known depth (piece :: pieces) (entry.toList ++ members)

theorem entry_iff_exists {entry : Option (String × Json)} {member : Bytes} :
    Entry known depth entry member ↔
      ∃ piece : Piece, piece.Writes member ∧ piece.Gives known depth entry := by
  constructor
  · intro h
    cases h with
    | @kept name v item member hk hm hv =>
      obtain @⟨_, body, _, hb, hs, ha⟩ := hm
      exact ⟨⟨body, item⟩, .intro hb (body_of_spells hs) ha (derives_of_denotes hv), .kept hs hk hv⟩
    | @passed name item member hk hm hi =>
      obtain @⟨_, body, _, hb, hs, ha⟩ := hm
      exact ⟨⟨body, item⟩, .intro hb (body_of_spells hs) ha hi, .passed hs hk⟩
  · rintro ⟨piece, hw, hg⟩
    obtain ⟨hb, hn, ha, hi⟩ := hw
    cases hg with
    | kept hs hk hv => exact .kept hk (.intro hb hs ha) hv
    | passed hs hk => exact .passed hk (.intro hb hs ha) hi

theorem lists_iff_exists {members : Members} {bs : Bytes} :
    Lists known depth members bs ↔ ∃ pieces, Row pieces bs ∧ Gather known depth pieces members := by
  constructor
  · intro h
    induction h with
    | last he =>
      obtain ⟨piece, hw, hg⟩ := entry_iff_exists.1 he
      refine ⟨[piece], .last hw, ?_⟩
      have := Gather.cons hg .nil
      rwa [List.append_nil] at this
    | more he _ ih =>
      obtain ⟨piece, hw, hg⟩ := entry_iff_exists.1 he
      obtain ⟨pieces, hrow, hgather⟩ := ih
      exact ⟨piece :: pieces, .more hw hrow, .cons hg hgather⟩
  · rintro ⟨pieces, hrow, hgather⟩
    induction hrow generalizing members with
    | last hw =>
      cases hgather with
      | cons hg hnil =>
        cases hnil
        rw [List.append_nil]
        exact .last (entry_iff_exists.2 ⟨_, hw, hg⟩)
    | more hw _ ih =>
      cases hgather with
      | cons hg hgather => exact .more (entry_iff_exists.2 ⟨_, hw, hg⟩) (ih hgather)

/-- An object some of whose members are known is an object. -/
theorem isObject_of_shows {members : Members} {bs : Bytes} (h : Shows known depth members bs) :
    IsObject bs := by
  cases h with
  | empty hb => exact ⟨_, rfl, .inl hb⟩
  | members hl =>
    obtain ⟨pieces, hrow, -⟩ := lists_iff_exists.1 hl
    exact ⟨_, rfl, .inr hrow.derives⟩

/-- An object shows what its members give. -/
theorem shows_iff {pieces : List Piece} {members : Members} {bs : Bytes} (h : IsObjectOf pieces bs) :
    Shows known (depth + 1) members bs ↔ Gather known depth pieces members := by
  constructor
  · intro hs
    cases hs with
    | empty hb =>
      obtain rfl : pieces = [] := h.unique ⟨_, rfl, .inl ⟨rfl, hb⟩⟩
      exact .nil
    | members hl =>
      obtain ⟨pieces', hrow, hgather⟩ := lists_iff_exists.1 hl
      obtain rfl : pieces = pieces' := h.unique ⟨_, rfl, .inr hrow⟩
      exact hgather
  · intro hgather
    obtain ⟨inner, rfl, ⟨rfl, hb⟩ | hrow⟩ := h
    · cases hgather
      exact .empty hb
    · exact .members (lists_iff_exists.2 ⟨pieces, hrow, hgather⟩)

end Grammar

end VaultLink.Json
