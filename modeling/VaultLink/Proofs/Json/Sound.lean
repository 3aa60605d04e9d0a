import VaultLink.Proofs.Json.Spelling

/-!
# Whatever is read has its meaning

The reader answers with a value only what the bytes that it took stand for by the rules: a number
(`denotes_of_readNumber`), a value with all its parts (`denotes_of_readValue`) and a whole text
(`parse_eq_ok_iff`). With the other direction this says what every text is parsed to and which texts
are refused.
-/

namespace VaultLink.Json

open Grammar

variable {bs rest : Bytes}

/-! ## Blanks, words and digits -/

/-- Blanks are all that is passed over before what comes next. -/
theorem exists_of_skipSpace {next : Bytes} (h : skipSpace bs = next) :
    ∃ blanks, Blanks blanks ∧ bs = blanks ++ next :=
  ⟨bs.takeWhile isSpace, List.all_eq_true.1 List.all_takeWhile,
    by rw [← h, skipSpace, List.takeWhile_append_dropWhile]⟩

theorem eq_of_readWord {word : Bytes} (h : readWord word bs = .ok rest) : bs = word ++ rest := by
  induction word generalizing bs with
  | nil =>
    cases h
    rfl
  | cons w ws ih =>
    cases bs with
    | nil => cases h
    | cons b bs =>
      rw [readWord] at h
      split at h
      · rename_i hb
        rw [hb, ih h, List.cons_append]
      · cases h

theorem exists_of_readDigits {ds : List Nat} (h : readDigits bs = .ok (ds, rest)) :
    ∃ d tail, bs = d :: tail ++ rest ∧ isDigit d = true ∧ Digits tail ∧
      ds = (d :: tail).map digitValue := by
  have hsplit : bs.takeWhile isDigit ++ bs.dropWhile isDigit = bs := List.takeWhile_append_dropWhile
  have hdigits : ∀ b ∈ bs.takeWhile isDigit, isDigit b = true :=
    List.all_eq_true.1 List.all_takeWhile
  unfold readDigits spanDigits at h
  rcases htake : bs.takeWhile isDigit with _ | ⟨d, tail⟩ <;> rw [htake] at h hsplit hdigits
  · simp only [List.map_nil] at h
    split at h <;> simp_all
  · cases h
    obtain ⟨hd, htail⟩ := List.forall_mem_cons.1 hdigits
    exact ⟨d, tail, hsplit.symm, hd, htail, rfl⟩

/-! ## Numbers -/

theorem exists_of_readWhole {ds : List Nat} (h : readWhole bs = .ok (ds, rest)) :
    ∃ whole, bs = whole ++ rest ∧ Whole whole ∧ ds = whole.map digitValue := by
  obtain ⟨⟨ds', rest'⟩, hread, h⟩ := bind_eq_ok.1 h
  obtain ⟨d, tail, rfl, hd, htail, rfl⟩ := exists_of_readDigits hread
  by_cases hzero : d = 0x30
  · subst hzero
    cases tail with
    | nil =>
      cases h
      exact ⟨[0x30], rfl, .zero, rfl⟩
    | cons e tail => cases h
  · have hne := digitValue_ne_zero hd hzero
    simp only [List.map_cons] at h
    split at h
    · rename_i heq
      exact absurd (List.cons.inj (Prod.mk.inj heq).1).1 hne
    · cases h
      exact ⟨d :: tail, rfl, .digits hd hzero htail, rfl⟩

theorem exists_of_readFraction {f : Option (List Nat)} (h : readFraction bs = .ok (f, rest)) :
    ∃ fraction, bs = fraction ++ rest ∧ FractionOf fraction f := by
  unfold readFraction at h
  split at h
  · obtain ⟨⟨ds, rest'⟩, hread, h⟩ := bind_eq_ok.1 h
    obtain ⟨d, tail, rfl, hd, htail, rfl⟩ := exists_of_readDigits hread
    cases h
    exact ⟨0x2E :: d :: tail, rfl, .present hd htail⟩
  · cases h
    exact ⟨[], rfl, .absent⟩

theorem exists_of_readExponent {e : Option (Bool × List Nat)}
    (h : readExponent bs = .ok (e, rest)) :
    ∃ exponent, bs = exponent ++ rest ∧ ExponentOf exponent e := by
  unfold readExponent at h
  split at h
  · rename_i mark tail
    split at h
    · rename_i hmark
      have hmark : mark = 0x65 ∨ mark = 0x45 := by simpa using hmark
      have hsigned {sign digits : Bytes} {down : Bool} (hs : SignOf sign down)
          (htail : tail = sign ++ digits)
          (h : (readDigits digits >>= fun p => .ok (some (down, p.1), p.2)) = .ok (e, rest)) :
          ∃ exponent, mark :: tail = exponent ++ rest ∧ ExponentOf exponent e := by
        obtain ⟨⟨ds, rest'⟩, hread, h⟩ := bind_eq_ok.1 h
        obtain ⟨d, more, rfl, hd, hmore, rfl⟩ := exists_of_readDigits hread
        cases h
        exact ⟨mark :: (sign ++ d :: more), by rw [htail]; simp, .present hmark hs hd hmore⟩
      simp only at h
      split at h
      · exact hsigned .plus rfl h
      · exact hsigned .minus rfl h
      · exact hsigned .absent rfl h
    · cases h
      exact ⟨[], rfl, .absent⟩
  · cases h
    exact ⟨[], rfl, .absent⟩

theorem exists_of_readNumeral {n : Numeral} (h : readNumeral bs = .ok (n, rest)) :
    ∃ piece, bs = piece ++ rest ∧ Counts piece n := by
  have hparts {negative : Bool} {bs : Bytes}
      (h : (readWhole bs >>= fun w => readFraction w.2 >>= fun f => readExponent f.2 >>= fun e =>
        .ok ((⟨negative, w.1, f.1, e.1⟩ : Numeral), e.2)) = .ok (n, rest)) :
      ∃ piece, (if negative then [0x2D] else []) ++ bs = piece ++ rest ∧ Counts piece n := by
    obtain ⟨⟨ds, bs₁⟩, hwhole, h⟩ := bind_eq_ok.1 h
    obtain ⟨⟨f, bs₂⟩, hfraction, h⟩ := bind_eq_ok.1 h
    obtain ⟨⟨e, bs₃⟩, hexponent, h⟩ := bind_eq_ok.1 h
    cases h
    obtain ⟨whole, rfl, hw, rfl⟩ := exists_of_readWhole hwhole
    obtain ⟨fraction, rfl, hf⟩ := exists_of_readFraction hfraction
    obtain ⟨exponent, rfl, he⟩ := exists_of_readExponent hexponent
    exact ⟨_, by simp only [List.append_assoc], .parts hw hf he⟩
  unfold readNumeral at h
  simp only at h
  split at h
  · exact hparts h
  · exact hparts h

theorem denotes_of_readNumber {n : Number} (h : readNumber bs = .ok (n, rest)) (depth : Nat) :
    ∃ piece, bs = piece ++ rest ∧ Denotes depth (.value (.number n)) piece := by
  obtain ⟨⟨numeral, rest'⟩, hread, h⟩ := bind_eq_ok.1 h
  obtain ⟨number, hvalue, h⟩ := bind_eq_ok.1 h
  cases h
  obtain ⟨piece, rfl, hcounts⟩ := exists_of_readNumeral hread
  refine ⟨piece, rfl, ?_⟩
  rw [Numeral.value_eq] at hvalue
  cases hi : numeral.integer? with
  | some i =>
    rw [hi] at hvalue
    cases hvalue
    exact .integer hcounts hi
  | none =>
    simp only [hi] at hvalue
    cases hx : numeral.toDouble with
    | error fault =>
      rw [hx] at hvalue
      cases hvalue
    | ok x =>
      rw [hx] at hvalue
      cases hvalue
      exact .double hcounts hi hx

/-! ## Between the parts -/

theorem exists_of_nextItem_closed {first : Bool} (h : nextItem first bs = .ok (.closed rest)) :
    ∃ blanks, Blanks blanks ∧ bs = blanks ++ 0x5D :: rest := by
  unfold nextItem at h
  split at h
  · cases h
  · rename_i b tail hskip
    obtain ⟨blanks, hb, rfl⟩ := exists_of_skipSpace hskip
    split at h
    · rename_i hclose
      cases h
      exact ⟨blanks, hb, by rw [hclose]⟩
    · repeat' split at h
      all_goals cases h

theorem exists_of_nextItem_another {first : Bool} {tail : Bytes}
    (h : nextItem first bs = .ok (.another tail)) :
    ∃ blanks before, Blanks blanks ∧ Blanks before ∧ bs = blanks ++ (comma first ++ (before ++ tail)) := by
  have hnone : Blanks [] := List.forall_mem_nil _
  unfold nextItem at h
  split at h
  · cases h
  · rename_i b more hskip
    obtain ⟨blanks, hb, rfl⟩ := exists_of_skipSpace hskip
    split at h
    · cases h
    · split at h
      · rename_i hfirst
        cases h
        exact ⟨blanks, [], hb, hnone, by rw [hfirst]; rfl⟩
      · rename_i hfirst
        split at h
        · rename_i hcomma
          split at h
          · cases h
          · rename_i c next hnext
            obtain ⟨before, hbefore, rfl⟩ := exists_of_skipSpace hnext
            split at h
            · cases h
            · cases h
              refine ⟨blanks, before, hb, hbefore, ?_⟩
              rw [hcomma, eq_false_of_ne_true hfirst]
              rfl
        · cases h

theorem exists_of_nextName_closed {first : Bool} (h : nextName first bs = .ok (.closed rest)) :
    ∃ blanks, Blanks blanks ∧ bs = blanks ++ 0x7D :: rest := by
  unfold nextName at h
  split at h
  · cases h
  · rename_i b tail hskip
    obtain ⟨blanks, hb, rfl⟩ := exists_of_skipSpace hskip
    split at h
    · rename_i hclose
      cases h
      exact ⟨blanks, hb, by rw [hclose]⟩
    · repeat' split at h
      all_goals cases h

theorem exists_of_nextName_another {first : Bool} {tail : Bytes}
    (h : nextName first bs = .ok (.another tail)) :
    ∃ blanks before, Blanks blanks ∧ Blanks before ∧
      bs = blanks ++ (comma first ++ (before ++ 0x22 :: tail)) := by
  have hnone : Blanks [] := List.forall_mem_nil _
  unfold nextName at h
  split at h
  · cases h
  · rename_i b more hskip
    obtain ⟨blanks, hb, rfl⟩ := exists_of_skipSpace hskip
    split at h
    · cases h
    · split at h
      · rename_i hfirst
        split at h
        · rename_i hquote
          cases h
          exact ⟨blanks, [], hb, hnone, by rw [hfirst, hquote]; rfl⟩
        · cases h
      · rename_i hfirst
        split at h
        · rename_i hcomma
          split at h
          · cases h
          · rename_i c next hnext
            obtain ⟨before, hbefore, rfl⟩ := exists_of_skipSpace hnext
            split at h
            · rename_i hquote
              cases h
              refine ⟨blanks, before, hb, hbefore, ?_⟩
              rw [hcomma, eq_false_of_ne_true hfirst, hquote]
              rfl
            · split at h <;> cases h
        · cases h

theorem exists_of_readColon (h : readColon bs = .ok rest) :
    ∃ blanks, Blanks blanks ∧ bs = blanks ++ 0x3A :: rest := by
  unfold readColon at h
  split at h
  · cases h
  · rename_i b tail hskip
    obtain ⟨blanks, hb, rfl⟩ := exists_of_skipSpace hskip
    split at h
    · rename_i hcolon
      cases h
      exact ⟨blanks, hb, by rw [hcolon]⟩
    · cases h

/-- A name, its quotes and the colon after them. -/
theorem named_of_read {name : String} {before more : Bytes} (hb : Blanks before)
    (hname : readString bs = .ok (name, more)) (hcolon : readColon more = .ok rest) (item : Bytes) :
    ∃ front, before ++ 0x22 :: bs = front ++ rest ∧ Named name item (front ++ item) := by
  obtain ⟨body, rfl, hbody⟩ := readString_eq_ok_iff.1 hname
  obtain ⟨after, ha, rfl⟩ := exists_of_readColon hcolon
  refine ⟨before ++ 0x22 :: (body ++ 0x22 :: (after ++ [0x3A])), by simp, ?_⟩
  have hmember : Named name item _ := .intro hb hbody ha
  simpa using hmember

/-! ## Values -/

theorem Grammar.Named.blanks_append {name : String} {item member blanks : Bytes}
    (h : Named name item member) (hb : Blanks blanks) : Named name item (blanks ++ member) := by
  obtain ⟨hbefore, hbody, ha⟩ := h
  have hmember : Named name item _ := .intro (List.forall_mem_append.2 ⟨hb, hbefore⟩) hbody ha
  rwa [List.append_assoc] at hmember

/-- Everything but a bare value may have more blanks before it. -/
theorem Grammar.Denotes.blanks_append {depth : Nat} {sense : Sense} (h : Denotes depth sense bs)
    (hs : sense.part ≠ .value) {blanks : Bytes} (hb : Blanks blanks) :
    Denotes depth sense (blanks ++ bs) := by
  induction h with
  | null | true_ | false_ | integer | double | string | emptyList | list | emptyObject | object =>
    exact absurd rfl hs
  | item hbefore hv ha =>
    rw [← List.append_assoc]
    exact .item (List.forall_mem_append.2 ⟨hb, hbefore⟩) hv ha
  | lastItem _ ih => exact .lastItem (ih nofun)
  | moreItems _ hitems ih =>
    rw [← List.append_assoc]
    exact .moreItems (ih nofun) hitems
  | member hm hv => exact .member (hm.blanks_append hb) hv
  | lastMember _ ih => exact .lastMember (ih nofun)
  | moreMembers _ hmembers ih =>
    rw [← List.append_assoc]
    exact .moreMembers (ih nofun) hmembers

/-- An item may have more blanks after it. -/
theorem Grammar.Denotes.append_blanks {depth : Nat} {v : Json} (h : Denotes depth (.item v) bs)
    {blanks : Bytes} (hb : Blanks blanks) : Denotes depth (.item v) (bs ++ blanks) := by
  obtain ⟨before, value, after, rfl, hbefore, hv, ha⟩ := h.exists_value
  rw [List.append_assoc, List.append_assoc]
  exact .item hbefore hv (List.forall_mem_append.2 ⟨ha, hb⟩)

/-- The values that are read with so much fuel stand for themselves. -/
def Sound (fuel : Nat) : Prop := ∀ depth bs v rest, valueFrom fuel depth bs = .ok (v, rest) →
  ∃ before value, bs = before ++ (value ++ rest) ∧ Blanks before ∧ Denotes depth (.value v) value

/-- The items that are left of a list: none, or some after a comma unless they are the first. -/
theorem denotes_of_itemsFrom {fuel : Nat} (hv : ∀ less < fuel, Sound less) {depth : Nat}
    {first : Bool} {vs : List Json} (h : itemsFrom fuel depth first bs = .ok (vs, rest)) :
    ∃ blanks, Blanks blanks ∧ ((vs = [] ∧ bs = blanks ++ 0x5D :: rest) ∨
      ∃ items, Denotes depth (.items vs) items ∧
        bs = blanks ++ (comma first ++ (items ++ 0x5D :: rest))) := by
  induction fuel generalizing first bs vs with
  | zero =>
    rw [itemsFrom] at h
    cases h
  | succ fuel ih =>
    rw [itemsFrom] at h
    obtain ⟨turn, hturn, hstep⟩ := bind_eq_ok.1 h
    cases turn with
    | closed tail =>
      cases hstep
      obtain ⟨blanks, hb, rfl⟩ := exists_of_nextItem_closed hturn
      exact ⟨blanks, hb, .inl ⟨rfl, rfl⟩⟩
    | another tail =>
      obtain ⟨blanks, before, hb, hbefore, rfl⟩ := exists_of_nextItem_another hturn
      obtain ⟨⟨v, tail'⟩, hvalue, hstep⟩ := bind_eq_ok.1 hstep
      obtain ⟨⟨vs', rest'⟩, hmore, hstep⟩ := bind_eq_ok.1 hstep
      cases hstep
      obtain ⟨before', value, rfl, hbefore', hdenotes⟩ := hv fuel (Nat.lt_succ_self _) _ _ _ _ hvalue
      obtain ⟨after, ha, hrest⟩ := ih (fun less hl => hv less (Nat.lt_succ_of_lt hl)) hmore
      have hitem : Denotes depth (.item v) ((before ++ before') ++ (value ++ after)) :=
        .item (List.forall_mem_append.2 ⟨hbefore, hbefore'⟩) hdenotes ha
      refine ⟨blanks, hb, .inr ?_⟩
      rcases hrest with ⟨rfl, rfl⟩ | ⟨items, hitems, rfl⟩
      · exact ⟨_, .lastItem hitem, by simp⟩
      · exact ⟨_, .moreItems hitem hitems, by simp [comma]⟩

theorem denotes_list {fuel : Nat} (hv : ∀ less < fuel, Sound less) {depth : Nat} {vs : List Json}
    (h : itemsFrom fuel depth true bs = .ok (vs, rest)) :
    ∃ value, 0x5B :: bs = value ++ rest ∧ Denotes (depth + 1) (.value (.array vs)) value := by
  obtain ⟨blanks, hb, ⟨rfl, rfl⟩ | ⟨items, hitems, rfl⟩⟩ := denotes_of_itemsFrom hv h
  · exact ⟨_, by simp, .emptyList hb⟩
  · exact ⟨_, by simp [comma], .list (hitems.blanks_append (by simp [Sense.part]) hb)⟩

/-- The members that are left of an object. -/
theorem denotes_of_membersFrom {fuel : Nat} (hv : ∀ less < fuel, Sound less) {depth : Nat}
    {first : Bool} {seen ms : List (String × Json)}
    (h : membersFrom fuel depth first seen bs = .ok (ms, rest)) :
    ∃ blanks new, Blanks blanks ∧ ms = seen.reverse ++ new ∧
      ((new = [] ∧ bs = blanks ++ 0x7D :: rest) ∨
      ∃ members, Denotes depth (.members new) members ∧
        bs = blanks ++ (comma first ++ (members ++ 0x7D :: rest))) := by
  induction fuel generalizing first bs seen with
  | zero =>
    rw [membersFrom] at h
    cases h
  | succ fuel ih =>
    rw [membersFrom] at h
    obtain ⟨turn, hturn, hstep⟩ := bind_eq_ok.1 h
    cases turn with
    | closed tail =>
      cases hstep
      obtain ⟨blanks, hb, rfl⟩ := exists_of_nextName_closed hturn
      exact ⟨blanks, [], hb, (List.append_nil _).symm, .inl ⟨rfl, rfl⟩⟩
    | another tail =>
      obtain ⟨blanks, before, hb, hbefore, rfl⟩ := exists_of_nextName_another hturn
      obtain ⟨⟨name, tail'⟩, hname, hstep⟩ := bind_eq_ok.1 hstep
      obtain ⟨⟨name', afterName⟩, hstring, hname⟩ := bind_eq_ok.1 hname
      obtain ⟨afterColon, hcolon, hname⟩ := bind_eq_ok.1 hname
      cases hname
      obtain ⟨⟨v, tail''⟩, hvalue, hmore⟩ := bind_eq_ok.1 hstep
      obtain ⟨before', value, rfl, hbefore', hdenotes⟩ := hv fuel (Nat.lt_succ_self _) _ _ _ _ hvalue
      obtain ⟨after, new, ha, rfl, hrest⟩ := ih (fun less hl => hv less (Nat.lt_succ_of_lt hl)) hmore
      obtain ⟨front, hfront, hnamed⟩ := named_of_read hbefore hstring hcolon (before' ++ (value ++ after))
      have hmember := Denotes.member hnamed (.item hbefore' hdenotes ha)
      refine ⟨blanks, (name, v) :: new, hb, by simp, .inr ?_⟩
      rw [hfront]
      rcases hrest with ⟨rfl, rfl⟩ | ⟨members, hmembers, rfl⟩
      · exact ⟨_, .lastMember hmember, by simp⟩
      · exact ⟨_, .moreMembers hmember hmembers, by simp [comma]⟩

theorem denotes_object {fuel : Nat} (hv : ∀ less < fuel, Sound less) {depth : Nat}
    {ms : List (String × Json)} (h : membersFrom fuel depth true [] bs = .ok (ms, rest)) :
    ∃ value, 0x7B :: bs = value ++ rest ∧
      Denotes (depth + 1) (.value (.object (Members.ofList ms))) value := by
  obtain ⟨blanks, new, hb, rfl, ⟨rfl, rfl⟩ | ⟨members, hmembers, rfl⟩⟩ := denotes_of_membersFrom hv h
  · exact ⟨_, by simp, .emptyObject hb⟩
  · exact ⟨_, by simp [comma], .object (hmembers.blanks_append (by simp [Sense.part]) hb)⟩

/-- Every value that is read stands for itself, by induction on the fuel: the parts of a list or an
object are read with less. -/
theorem sound (fuel : Nat) : Sound fuel := by
  induction fuel using Nat.strongRecOn with
  | _ fuel ih =>
    intro depth bs v rest h
    cases fuel with
    | zero =>
      rw [valueFrom] at h
      cases h
    | succ fuel =>
      have hless : ∀ less < fuel, Sound less := fun less hl => ih less (Nat.lt_succ_of_lt hl)
      obtain ⟨before, hb, hbs⟩ := exists_of_skipSpace (Eq.refl (skipSpace bs))
      suffices hvalue : ∃ value, skipSpace bs = value ++ rest ∧ Denotes depth (.value v) value by
        obtain ⟨value, hskip, hdenotes⟩ := hvalue
        exact ⟨before, value, hskip ▸ hbs, hb, hdenotes⟩
      have hword {word : Bytes} {value : Json} {tail : Bytes} {b : UInt8}
          (hdenotes : Denotes depth (.value value) (b :: word))
          (h : (do
            let rest ← readWord word tail
            return (value, rest)) = .ok (v, rest)) :
          ∃ bytes, b :: tail = bytes ++ rest ∧ Denotes depth (.value v) bytes := by
        obtain ⟨rest', hread, h⟩ := bind_eq_ok.1 h
        cases h
        exact ⟨b :: word, by rw [eq_of_readWord hread, List.cons_append], hdenotes⟩
      rw [valueFrom] at h
      split at h
      · cases h
      rename_i b tail hskip
      rw [hskip]
      split at h
      · -- a string
        rename_i hquote
        obtain ⟨⟨text, rest'⟩, hread, h⟩ := bind_eq_ok.1 h
        cases h
        obtain ⟨body, rfl, hbody⟩ := readString_eq_ok_iff.1 hread
        exact ⟨_, by simp [hquote], .string hbody⟩
      split at h
      · -- an object
        rename_i hbrace
        cases depth with
        | zero => cases h
        | succ depth =>
          obtain ⟨⟨ms, rest'⟩, hread, h⟩ := bind_eq_ok.1 h
          cases h
          exact hbrace ▸ denotes_object hless hread
      split at h
      · -- a list
        rename_i hbracket
        cases depth with
        | zero => cases h
        | succ depth =>
          obtain ⟨⟨vs, rest'⟩, hread, h⟩ := bind_eq_ok.1 h
          cases h
          exact hbracket ▸ denotes_list hless hread
      split at h
      · obtain ⟨⟨n, rest'⟩, hread, h⟩ := bind_eq_ok.1 h
        cases h
        obtain ⟨piece, hpiece, hdenotes⟩ := denotes_of_readNumber hread depth
        exact ⟨piece, hpiece, hdenotes⟩
      split at h
      · rename_i hb
        exact hb ▸ hword .null h
      split at h
      · rename_i hb
        exact hb ▸ hword .true_ h
      split at h
      · rename_i hb
        exact hb ▸ hword .false_ h
      · cases h

/-- What is read off the front of a text are blanks and a value, and it stands for what is answered. -/
theorem denotes_of_readValue {depth : Nat} {v : Json} (h : readValue depth bs = .ok (v, rest)) :
    ∃ before value, bs = before ++ (value ++ rest) ∧ Blanks before ∧ Denotes depth (.value v) value :=
  sound _ depth bs v rest h

theorem blanks_of_finish (h : finish rest = .ok ()) : Blanks rest := by
  obtain ⟨blanks, hb, hrest⟩ := exists_of_skipSpace (Eq.refl (skipSpace rest))
  unfold finish at h
  split at h
  · rename_i hend
    rw [List.isEmpty_iff.1 hend, List.append_nil] at hrest
    exact hrest ▸ hb
  · cases h

/-- A text is parsed to a value just if it stands for it; a text that stands for nothing is not
parsed. -/
theorem parse_eq_ok_iff {text : Bytes} {v : Json} :
    parse text = .ok v ↔ Denotes depthLimit (.item v) text := by
  constructor
  · intro h
    obtain ⟨⟨v', rest⟩, hread, hparse⟩ := bind_eq_ok.1 h
    obtain ⟨⟨⟩, hfinish, hparse⟩ := bind_eq_ok.1 hparse
    cases hparse
    obtain ⟨before, value, rfl, hb, hv⟩ := denotes_of_readValue hread
    exact .item hb hv (blanks_of_finish hfinish)
  · exact parse_of_denotes

end VaultLink.Json
