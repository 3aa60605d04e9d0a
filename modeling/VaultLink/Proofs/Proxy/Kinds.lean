import VaultLink.Proofs.Json.Pieces
import VaultLink.Proofs.Proxy.Classes
import VaultLink.Proofs.Proxy.Forms
import VaultLink.Proofs.Wire.Accounting

/-!
# Which values are messages

Every JSON value that is a text passes the framer (`Frame.split_value`). A message is made of objects, and
of lists that have one item for each known member, in the order in which the members are declared; every
other text is malformed (`Inbound.decode_wraps`).
-/

namespace VaultLink

open Json (Ends)
open Json.Grammar

/-! ## Frames -/

namespace Frame

/-- A value is passed over to its last byte. -/
theorem skip_value {value rest : Bytes} (hv : Derives .value value) (hr : Ends rest) :
    Json.Scan.skip (value ++ rest) = .ok rest := by
  have hblanks : Blanks [] := List.forall_mem_nil _
  have hitem : Derives .item value := by
    have := Derives.item hblanks hv hblanks
    rwa [List.nil_append, List.append_nil] at this
  obtain ⟨after, ha, hskip⟩ := Json.Scan.skip_of_derives hitem hr
  obtain ⟨before, value', he, -, -⟩ := Json.Scan.derives_of_skip hskip
  -- What is left of the value are blanks, and a value does not end with one.
  have hvalue : value = before ++ value' ++ after := by
    have : value ++ rest = (before ++ value' ++ after) ++ rest := by simpa using he
    exact List.append_cancel_right this
  cases hlast : after.getLast? with
  | none => rwa [List.getLast?_eq_none_iff.1 hlast, List.nil_append] at hskip
  | some b =>
    have hb : b ∈ value.getLast? := by
      rw [hvalue, List.getLast?_append, hlast]
      rfl
    have hspace := ha b (List.mem_of_getLast? hlast)
    rw [hv.isSpace_ends.2 b hb] at hspace
    cases hspace

theorem isDelimiter_of_follows {b : UInt8} (h : Json.Scan.follows b = true) : isDelimiter b = true := by
  simp only [Json.Scan.follows, Bool.or_eq_true, decide_eq_true_eq] at h
  rcases h with ((h | rfl) | rfl) | rfl
  · simp [isDelimiter, h]
  · rfl
  · rfl
  · rfl

/-- The framer takes every kind of value off the bytes that it stands before. -/
theorem split_value {blanks rest : Bytes} {text : String} (hb : Blanks blanks)
    (hv : Derives .value (Utf8.encode text)) (hr : Ends rest) :
    split (blanks ++ (Utf8.encode text ++ rest)) = .message text rest := by
  have hskip := skip_value hv hr
  obtain ⟨b, tail, htext, hs, -⟩ := hv.exists_head
  have hdecode : Utf8.decode (Utf8.encode text) = .ok text := by
    rw [Utf8.decode, Utf8.decode?_encode]
  have hlead : (blanks ++ (Utf8.encode text ++ rest)).dropWhile Json.isSpace =
      Utf8.encode text ++ rest := by
    rw [List.dropWhile_append_of_pos hb, htext]
    exact Json.skipSpace_cons hs _
  have htake : (Utf8.encode text ++ rest).take ((Utf8.encode text ++ rest).length - rest.length) =
      Utf8.encode text := by
    rw [List.length_append, Nat.add_sub_cancel, List.take_left]
  have hfollow : mayFollow b rest = true := by
    cases rest with
    | nil => rfl
    | cons c rest => simp [mayFollow, isDelimiter_of_follows (hr c rfl)]
  simp only [split, hlead, hskip, htake, message, hdecode]
  rw [htext, List.cons_append]
  simp only [hfollow, if_true]

end Frame

/-! ## Messages -/

/-- The text has blanks around bytes of which `P` holds. -/
def Wraps (P : Bytes → Prop) (text : String) : Prop :=
  ∃ before value after, Utf8.encode text = before ++ (value ++ after) ∧ Blanks before ∧
    Blanks after ∧ P value

theorem Wraps.imp {P Q : Bytes → Prop} {text : String} (h : Wraps P text)
    (himp : ∀ value, P value → Q value) : Wraps Q text := by
  obtain ⟨before, value, after, ht, hb, ha, hp⟩ := h
  exact ⟨before, value, after, ht, hb, ha, himp value hp⟩

namespace Inbound

open InboundFields Json

variable {text : String} {inbound : Inbound}

/-- A list with one item for each known member. -/
def IsRow (vs : List Json) (bs : Bytes) : Prop :=
  Denotes depthLimit (.value (.array vs)) bs ∧ vs.length = known.length

/-- A text is a message just if it is an object or a list of the known members that make one. -/
theorem decode_eq_ok_iff : decode text = .ok inbound ↔
    ∃ members, Wraps (Carries members) text ∧ Textual members ∧ Made (told members) inbound := by
  have hmade {members : Members} (hn : (members.map (·.1)).Nodup) (ht : Textual members) :
      ofFields (ofMembers members) = .ok inbound ↔ Made (told members) inbound := by
    have htells := tells_ofMembers ((textual_iff hn).1 ht)
    exact ⟨made_of_ofFields htells, ofFields_of_made htells⟩
  unfold decode
  constructor
  · intro h
    split at h
    · rename_i fields hread
      obtain ⟨before, value, after, members, ht, hb, ha, hc, htextual, rfl⟩ := read_eq_ok_iff.1 hread
      exact ⟨members, ⟨before, value, after, ht, hb, ha, hc⟩, htextual,
        (hmade hc.nodup htextual).1 h⟩
    · cases h
  · rintro ⟨members, ⟨before, value, after, ht, hb, ha, hc⟩, htextual, hm⟩
    rw [read_eq_ok_iff.2 ⟨before, value, after, members, ht, hb, ha, hc, htextual, rfl⟩]
    exact (hmade hc.nodup htextual).2 hm

/-- What is no message is malformed. -/
theorem exists_cause_of_forall_ne (h : ∀ inbound, decode text ≠ .ok inbound) :
    ∃ cause, decode text = .error (.malformedMessage cause) := by
  cases hdecoded : decode text with
  | ok inbound => exact absurd hdecoded (h inbound)
  | error e =>
    obtain ⟨cause, rfl⟩ := decode_eq_error hdecoded
    exact ⟨cause, rfl⟩

/-- A message starts with a brace or a bracket. -/
theorem head_of_carries {members : Members} {value : Bytes} (h : Carries members value) :
    ∃ b tail, value = b :: tail ∧ (b = 0x7B ∨ b = 0x5B) := by
  cases h with
  | object h =>
    obtain ⟨inner, rfl, -⟩ := isObject_of_shows h
    exact ⟨_, _, rfl, .inl rfl⟩
  | list h =>
    cases h with
    | emptyList | list => exact ⟨_, _, rfl, .inr rfl⟩

/-- A message of a text that is no object comes from a list. -/
theorem decode_eq_ok_iff_of_not_object (ho : ¬ Wraps IsObject text) : decode text = .ok inbound ↔
    ∃ vs, Wraps (IsRow vs) text ∧ Textual (known.zip vs) ∧ Made (told (known.zip vs)) inbound := by
  rw [decode_eq_ok_iff]
  constructor
  · rintro ⟨members, ⟨before, value, after, ht, hb, ha, hc⟩, htextual, hm⟩
    cases hc with
    | object h => exact absurd ⟨before, value, after, ht, hb, ha, isObject_of_shows h⟩ ho
    | @list vs _ h hlength =>
      exact ⟨vs, ⟨before, value, after, ht, hb, ha, h, hlength⟩, htextual, hm⟩
  · rintro ⟨vs, hrow, htextual, hm⟩
    exact ⟨_, hrow.imp fun _ h => .list h.1 h.2, htextual, hm⟩

/-- The first byte that is no blank is that of the value. -/
theorem head?_skipSpace {before value after : Bytes} {b : UInt8}
    (ht : Utf8.encode text = before ++ (value ++ after)) (hb : Blanks before)
    (hv : ∃ tail, value = b :: tail) (hs : isSpace b = false) :
    (skipSpace (Utf8.encode text)).head? = some b := by
  obtain ⟨tail, rfl⟩ := hv
  rw [ht, skipSpace_append hb, List.cons_append, skipSpace_cons hs]
  rfl

/-- The first byte of a message that is no blank. -/
theorem head_of_decode {b : UInt8} (h : decode text = .ok inbound)
    (hvalue : Wraps (fun value => Derives .value value ∧ value.head? = some b) text) :
    b = 0x7B ∨ b = 0x5B := by
  obtain ⟨members, ⟨before, value, after, ht, hb, -, hc⟩, -, -⟩ := decode_eq_ok_iff.1 h
  obtain ⟨before', value', after', ht', hb', -, hv, hhead⟩ := hvalue
  obtain ⟨c, tail, hopens, hopen⟩ := head_of_carries hc
  obtain ⟨c', tail', rfl, hs', -⟩ := hv.exists_head
  cases hhead
  have hs : isSpace c = false := by rcases hopen with rfl | rfl <;> rfl
  have hsame := (head?_skipSpace ht hb ⟨tail, hopens⟩ hs).symm.trans
    (head?_skipSpace ht' hb' ⟨tail', rfl⟩ hs')
  cases hsame
  exact hopen

/-- Messages are objects, and lists that have one item for each known member; such a list is read like the
object of these members. Every other text is malformed: every other list, every string, number and word,
and all that is no JSON. The framer makes no difference between the kinds of values. -/
theorem decode_wraps (text : String) :
    (∀ inbound, decode text = .ok inbound → Wraps IsObject text ∨ ∃ vs, Wraps (IsRow vs) text) ∧
    (¬ Wraps IsObject text → ∀ inbound, decode text = .ok inbound ↔ ∃ vs, Wraps (IsRow vs) text ∧
      Textual (known.zip vs) ∧ Made (told (known.zip vs)) inbound) ∧
    (¬ Wraps IsObject text → (∀ vs, ¬ Wraps (IsRow vs) text) →
      ∃ cause, decode text = .error (.malformedMessage cause)) ∧
    (∀ b, b ≠ 0x7B → b ≠ 0x5B →
      Wraps (fun value => Derives .value value ∧ value.head? = some b) text →
      ∃ cause, decode text = .error (.malformedMessage cause)) ∧
    (Derives .value (Utf8.encode text) → ∀ blanks rest, Blanks blanks → Ends rest →
      Frame.split (blanks ++ (Utf8.encode text ++ rest)) = .message text rest) := by
  have hforms {inbound : Inbound} (h : decode text = .ok inbound) :
      Wraps IsObject text ∨ ∃ vs, Wraps (IsRow vs) text := by
    by_cases ho : Wraps IsObject text
    · exact .inl ho
    · obtain ⟨vs, hrow, -, -⟩ := (decode_eq_ok_iff_of_not_object ho).1 h
      exact .inr ⟨vs, hrow⟩
  refine ⟨fun _ => hforms, fun ho _ => decode_eq_ok_iff_of_not_object ho, ?_, ?_,
    fun hv _ _ hb hr => Frame.split_value hb hv hr⟩
  · intro ho hrow
    refine exists_cause_of_forall_ne fun inbound h => ?_
    rcases hforms h with h | ⟨vs, h⟩
    · exact ho h
    · exact hrow vs h
  · intro b hbrace hbracket hvalue
    refine exists_cause_of_forall_ne fun inbound h => ?_
    rcases head_of_decode h hvalue with rfl | rfl
    · exact hbrace rfl
    · exact hbracket rfl

/-- How a text starts tells that it is neither an object nor a list. -/
theorem not_wraps_of_head {b c : UInt8} {P : Bytes → Prop} (hb : b ≠ c)
    (hp : ∀ value, P value → ∃ tail, value = c :: tail) (hs : isSpace c = false)
    (h : (skipSpace (Utf8.encode text)).head? = some b) : ¬ Wraps P text := by
  rintro ⟨before, value, after, ht, hbefore, -, hvalue⟩
  rw [head?_skipSpace ht hbefore (hp value hvalue) hs] at h
  cases h
  exact hb rfl

theorem not_object_of_head {b : UInt8} (hb : b ≠ 0x7B)
    (h : (skipSpace (Utf8.encode text)).head? = some b) : ¬ Wraps IsObject text :=
  not_wraps_of_head hb (fun _ ⟨inner, hv, _⟩ => ⟨inner ++ [0x7D], hv⟩) rfl h

theorem not_row_of_head {b : UInt8} (hb : b ≠ 0x5B)
    (h : (skipSpace (Utf8.encode text)).head? = some b) (vs : List Json) : ¬ Wraps (IsRow vs) text := by
  refine not_wraps_of_head hb (fun value hv => ?_) rfl h
  obtain ⟨hvalue, -⟩ := hv
  cases hvalue with
  | emptyList | list => exact ⟨_, rfl⟩

/-- The list of a signal's action and seven nulls. -/
def listedSignal : String := "[\"database-locked\",null,null,null,null,null,null,null]"

theorem decode_listedSignal : decode listedSignal = .ok (.signal .databaseLocked) := by
  decide +kernel

/-- A signal in a list is a message; a word and a number are malformed, though the framer takes them. -/
theorem decode_wraps_listedSignal :
    (∃ vs, Wraps (IsRow vs) listedSignal ∧ Made (told (known.zip vs)) (.signal .databaseLocked)) ∧
    (∃ cause, decode "null" = .error (.malformedMessage cause)) ∧
    (∃ cause, decode "5" = .error (.malformedMessage cause)) ∧
    Frame.split (Utf8.encode "5" ++ []) = .message "5" [] := by
  have hblanks : Blanks [] := List.forall_mem_nil _
  have hfive : Derives .value [0x35] :=
    .number (.parts (.inl rfl) (.digits (by decide) (by decide) (List.forall_mem_nil _)) .absent .absent)
  have hencode : Utf8.encode "5" = [0x35] := by decide
  obtain ⟨hforms, hrow, -, -, -⟩ := decode_wraps listedSignal
  obtain ⟨-, -, hother, -, -⟩ := decode_wraps "null"
  obtain ⟨-, -, -, hkind, hframe⟩ := decode_wraps "5"
  refine ⟨?_, ?_, ?_, hframe (hencode ▸ hfive) [] [] hblanks Json.ends_nil⟩
  · rcases hforms _ decode_listedSignal with hobject | -
    · exact absurd hobject (not_object_of_head (b := 0x5B) (by decide) (by decide))
    · obtain ⟨vs, hvs, -, hmade⟩ := (hrow
        (not_object_of_head (b := 0x5B) (by decide) (by decide)) _).1 decode_listedSignal
      exact ⟨vs, hvs, hmade⟩
  · exact hother (not_object_of_head (b := 0x6E) (by decide) (by decide))
      (not_row_of_head (b := 0x6E) (by decide) (by decide))
  · exact hkind 0x35 (by decide) (by decide)
      ⟨[], [0x35], [], hencode, hblanks, hblanks, hfive, rfl⟩

/-- A text that is decoded need not be an object. -/
theorem not_forall_decode_object :
    ¬ ∀ text inbound, decode text = .ok inbound → Wraps IsObject text := fun h =>
  not_object_of_head (b := 0x5B) (by decide) (by decide) (h listedSignal _ decode_listedSignal)

end Inbound

end VaultLink
