import VaultLink.Proofs.Json.Writing
import VaultLink.Proofs.Wire.Reassembly
import VaultLink.Proxy.Outbound

/-!
# Messages to the proxy on a stream

Every message that can be encoded is the text of an object of strings (`exists_parcel`), and however a
stream of such messages is cut, whoever waits on it gets them one by one, with nothing left over
(`receiveTimes_envelopes`).
-/

namespace VaultLink

open Json.Edge (Passes)

namespace Outbound

theorem areTexts_members (message : Outbound) : Json.AreTexts message.members := by
  cases message with
  | keyExchange => exact .cons (.cons (.cons (.cons .nil)))
  | encrypted action box nonce clientId triggerUnlock =>
    cases triggerUnlock
    · exact .cons (.cons (.cons (.cons .nil)))
    · exact .cons (.cons (.cons (.cons (.cons .nil))))

theorem eq_render_of_encode {message : Outbound} {bytes : Bytes} (h : message.encode = .ok bytes) :
    bytes = Json.render (.object message.members) := by
  unfold encode at h
  split at h
  · cases h; rfl
  · split at h <;> cases h
    rfl

/-- An encoded message stands on a stream as it is, if it is not too long. -/
theorem exists_parcel {message : Outbound} {bytes : Bytes} (h : message.encode = .ok bytes)
    (hs : bytes.length ≤ maxMessageSize) :
    ∃ parcel : Parcel, parcel.bytes = bytes ∧ Utf8.encode parcel.text = bytes := by
  have hb := eq_render_of_encode h
  obtain ⟨text, ht⟩ := Json.isText_render message.areTexts_members
  have hbytes : Utf8.encode text = bytes := by rw [hb, ht]
  exact ⟨⟨[], text, List.forall_mem_nil _, ht ▸ Json.isObject_render message.areTexts_members,
    by rwa [List.nil_append, hbytes]⟩, hbytes, hbytes⟩

/-- No number stands in an encoded message. -/
theorem passes_encode {message : Outbound} {bytes : Bytes} (h : message.encode = .ok bytes) :
    Passes .plain .plain bytes := by
  rw [eq_render_of_encode h]
  exact Json.Edge.passes_render message.areTexts_members

/-- So do messages that are encoded one after the other. -/
theorem exists_parcels {messages : List Outbound} {envelopes : List Bytes}
    (he : messages.map encode = envelopes.map .ok)
    (hs : ∀ envelope ∈ envelopes, envelope.length ≤ maxMessageSize) :
    ∃ parcels : List Parcel, parcels.length = messages.length ∧
      parcels.flatMap Parcel.bytes = envelopes.flatten ∧
      parcels.map (Utf8.encode ·.text) = envelopes ∧ Passes .plain .plain envelopes.flatten := by
  induction messages generalizing envelopes with
  | nil =>
    obtain rfl : envelopes = [] := List.map_eq_nil_iff.1 he.symm
    exact ⟨[], rfl, rfl, rfl, .nil nofun⟩
  | cons message messages ih =>
    obtain ⟨bytes, envelopes, rfl, hb, he⟩ := List.map_eq_cons_iff.1 he.symm
    obtain ⟨hsb, hs⟩ := List.forall_mem_cons.1 hs
    obtain ⟨parcel, hp, ht⟩ := exists_parcel hb.symm hsb
    obtain ⟨parcels, hl, hps, hts, hpass⟩ := ih he.symm hs
    refine ⟨parcel :: parcels, congrArg (· + 1) hl, ?_, ?_, ?_⟩
    · rw [List.flatMap_cons, hp, hps, List.flatten_cons]
    · rw [List.map_cons, ht, hts]
    · exact (passes_encode hb.symm).append hpass

end Outbound

namespace Link

/-- Reads of bytes in which nowhere a digit is wanting end nowhere where one is. -/
theorem intact_of_passes {edge : Json.Edge} {reads : List Bytes}
    (h : Passes .plain edge reads.flatten) : (Json.Edge.ofBytes []).Intact reads := by
  rintro seen ⟨later, rfl⟩
  exact h.ne_wanting _ ⟨later.flatten, List.flatten_append.symm⟩

/-- Messages that can be encoded, of which none is too long, reach whoever waits for them as they were
written and in order, however their bytes are cut into reads, and leave nothing on the stream. -/
theorem receiveTimes_envelopes (deadline : Option Instant) (clock : Instant)
    (messages : List Outbound) (envelopes reads : List Bytes)
    (he : messages.map Outbound.encode = envelopes.map .ok)
    (hs : ∀ envelope ∈ envelopes, envelope.length ≤ maxMessageSize)
    (hn : ∀ bytes ∈ reads, bytes ≠ []) (h : reads.flatten = envelopes.flatten) :
    ∃ texts : List String, texts.map Utf8.encode = envelopes ∧
      receiveTimes deadline messages.length (incoming clock reads) =
        (texts.map .message, fresh clock) := by
  obtain ⟨parcels, hl, hp, ht, hpass⟩ := Outbound.exists_parcels he hs
  have hintact : (Json.Edge.ofBytes []).Intact reads := intact_of_passes (h ▸ hpass)
  have hread : (incoming clock reads).buffer ++ reads.flatten =
      parcels.flatMap Parcel.bytes ++ [] := by
    rw [List.append_nil, hp, ← h]
    rfl
  have ha : (incoming clock reads).arrivals = reads.map .data := rfl
  rcases receiveTimes_parcels deadline ha hread with ⟨rest, more, hr, hrest, hmore, -⟩ | ⟨-, hbroken⟩
  · obtain ⟨rfl, hempty⟩ := List.append_eq_nil_iff.1 hrest
    -- Reads that are left over would be empty.
    have hnone : more = [] := List.eq_nil_iff_forall_not_mem.2 fun bytes hm =>
      hn bytes (hmore.mem hm) (List.flatten_eq_nil_iff.1 hempty bytes hm)
    subst hnone
    refine ⟨parcels.map (·.text), by rw [List.map_map]; exact ht, ?_⟩
    rw [← hl, hr, List.map_map]
    rfl
  · exact absurd hintact hbroken

/-- Two messages of a client with an odd name, a byte at a time. -/
theorem receiveTimes_envelopes_bytewise :
    let messages := [Outbound.encrypted .getLogins [0x00, 0xFF] (.ofNatLE 24 1) "\"\\\x7b é\n" true,
      Outbound.encrypted .lockDatabase [] (.ofNatLE 24 3) "" false]
    let envelopes := messages.map fun message => Json.render (.object message.members)
    let reads := envelopes.flatten.map fun b => [b]
    messages.map Outbound.encode = envelopes.map .ok ∧
    (∀ envelope ∈ envelopes, envelope.length ≤ maxMessageSize) ∧
    (∀ bytes ∈ reads, bytes ≠ []) ∧ reads.flatten = envelopes.flatten ∧
    ∃ texts : List String, texts.map Utf8.encode = envelopes ∧
      receiveTimes none 2 (incoming 0 reads) = (texts.map .message, fresh 0) := by
  intro messages envelopes reads
  have he : messages.map Outbound.encode = envelopes.map .ok := rfl
  have hs : ∀ envelope ∈ envelopes, envelope.length ≤ maxMessageSize := by decide +kernel
  have hn : ∀ bytes ∈ reads, bytes ≠ [] := fun bytes hb => by
    obtain ⟨b, -, rfl⟩ := List.mem_map.1 hb
    exact List.cons_ne_nil b []
  have h : reads.flatten = envelopes.flatten := by
    rw [← List.flatMap_def, List.flatMap_singleton']
  exact ⟨he, hs, hn, h, receiveTimes_envelopes none 0 messages envelopes reads he hs hn h⟩

end Link

end VaultLink
