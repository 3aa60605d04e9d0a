import Mathlib.Data.List.Induction
import VaultLink.Proofs.Client.Validation

/-!
# The proxy's verdicts on associations

During a run the proxy says of associations whether it accepts them (`testimonies`). A client makes sure
of a record only if the latest word on it was that it is accepted, unless a check that the caller asked
for misled it: one that refused the record, or one that accepted another record of the same database
(`Misleads`, `heedful_run`).
-/

namespace VaultLink.Client

variable {σ : Type} {c d : Client σ} {record : Association} {peer : PublicKey} {place : Nat}

/-- What the proxy says of the association with a connection key. -/
structure Testimony where
  subject : ConnectionKey
  verdict : Verdict

/-- The latest word on the association with a connection key. -/
def latest? (subject : ConnectionKey) (history : List Testimony) : Option Verdict :=
  history.foldl (fun latest t => if t.subject = subject then some t.verdict else latest) none

theorem latest?_append (subject : ConnectionKey) (history : List Testimony) (t : Option Testimony) :
    latest? subject (history ++ t.toList) =
      match t with
      | some t => if t.subject = subject then some t.verdict else latest? subject history
      | none => latest? subject history := by
  cases t with
  | none => rw [Option.toList_none, List.append_nil]
  | some t => exact List.foldl_append

/-- A later acceptance takes nothing from an acceptance. -/
theorem latest?_append_of_accepted {subject : ConnectionKey} {history : List Testimony}
    {t : Option Testimony} (ht : ∀ word ∈ t, word.verdict = .accepted)
    (h : latest? subject history = some .accepted) :
    latest? subject (history ++ t.toList) = some .accepted := by
  rw [latest?_append]
  cases t with
  | none => exact h
  | some word =>
    simp only
    split
    · rw [ht word rfl]
    · exact h

/-- What the proxy says of the record that a client checks. -/
def tested? (record : Association) (c : Client σ) : Option Testimony :=
  (verdict? record c).map (⟨record.connectionKey, ·⟩)

/-- What the proxy says of the new key with which a client asks to be associated. -/
def granted? (c : Client σ) : Option Testimony :=
  match c.session.requirePeer with
  | .error _ => none
  | .ok _ =>
    match roundTrip .associate (associateFields c) false c.afterFreshKey with
    | .ok body _ =>
      (named? body).map fun name => ⟨⟨name, c.freshKey.publicKey.toBase64⟩, .accepted⟩
    | .error _ _ => none

theorem requireText_eq_ok_iff {body : Json.Members} {name text : String} :
    requireText body name = .ok text ↔ (body.get? name >>= Json.asString?) = some text := by
  unfold requireText
  rcases body.get? name >>= Json.asString? with _ | found <;> simp

theorem granted?_accepts (c : Client σ) : ∀ word ∈ granted? c, word.verdict = .accepted := by
  intro word hw
  rw [Option.mem_def, granted?] at hw
  split at hw
  · cases hw
  · split at hw
    · obtain ⟨name, -, rfl⟩ := Option.map_eq_some_iff.1 hw
      rfl
    · cases hw

/-- What the proxy says of the record of the current database when a client makes sure of it. -/
def ensured? (c : Client σ) : Option Testimony :=
  match c.session.requirePeer, currentDatabase c with
  | .ok _, .ok hash d =>
    match d.registry.lookup hash with
    | some record => if d.association = .validated then none else tested? record d
    | none => none
  | _, _ => none

/-- What the proxy says of an association during a call. -/
def testimony? (operation : Operation) (c : Client σ) : Option Testimony :=
  match operation, checked? operation c with
  | .associate, _ => granted? c
  | _, some record => tested? record c
  | operation, none => if operation.ensures then ensured? c else none

theorem testimony?_of_ensures {operation : Operation} (h : operation.ensures = true)
    (c : Client σ) : testimony? operation c = ensured? c := by
  cases operation with
  | shakeHands | nextEvent | getDatabaseHash | associate | testAssociate | testAssociation
  | generatePassword | lockDatabase => cases h
  | _ => rfl

theorem testimony?_of_checked {operation : Operation} (h : checked? operation c = some record) :
    testimony? operation c = tested? record c := by
  unfold testimony?
  rw [h]
  cases operation with
  | associate => cases h
  | _ => rfl

theorem testimony?_eq_none {operation : Operation} (he : operation.ensures = false)
    (ha : operation ≠ .associate) (hc : checked? operation c = none) :
    testimony? operation c = none := by
  unfold testimony?
  rw [hc]
  cases operation with
  | associate => exact absurd rfl ha
  | _ => exact if_neg (Bool.eq_false_iff.1 he)

/-! ## What a client stands for -/

/-- A client that would make sure of a record without asking. -/
structure StandsFor (c : Client σ) (record : Association) : Prop where
  validated : c.association = .validated
  databaseHash_eq : c.databaseHash = some record.databaseId
  lookup_eq : c.registry.lookup record.databaseId = some record

theorem StandsFor.of_keeps (h : StandsFor d record) (hk : Keeps c d) : StandsFor c record := by
  obtain ⟨hv, hhash, -⟩ := hk.standing h.validated
  exact ⟨hv, hhash ▸ h.databaseHash_eq, hk.lookup_eq ▸ h.lookup_eq⟩

/-- A client stands for one record only. -/
theorem StandsFor.eq {other : Association} (h : StandsFor c record)
    (hhash : c.databaseHash = some other.databaseId)
    (hl : c.registry.lookup other.databaseId = some other) : record = other := by
  have hid : record.databaseId = other.databaseId :=
    Option.some.inj (h.databaseHash_eq.symm.trans hhash)
  exact Option.some.inj (h.lookup_eq.symm.trans (hid ▸ hl))

/-- The latest word on the record that a client stands for is its acceptance, or the client was misled
about it. -/
def Heeds (history : List Testimony) (misled : Association → Prop) (c : Client σ) : Prop :=
  ∀ record, StandsFor c record →
    latest? record.connectionKey history = some .accepted ∨ misled record

variable {history : List Testimony} {misled : Association → Prop}

theorem Heeds.keeps (h : Heeds history misled c) (hk : Keeps c d) : Heeds history misled d :=
  fun record hs => h record (hs.of_keeps hk)

theorem Heeds.accept (h : Heeds history misled c) {t : Option Testimony}
    (ht : ∀ word ∈ t, word.verdict = .accepted) : Heeds (history ++ t.toList) misled c :=
  fun record hs => (h record hs).imp_left (latest?_append_of_accepted ht)

variable [AssociationStore σ]

/-! ## Making sure of the association -/

/-- A record that a client made sure of is kept for its database. The client stood for it before and
nothing was said of it, or the proxy accepted it. -/
theorem standsFor_or_accepted (h : ensureAssociated c = .ok record d) :
    d.registry.lookup record.databaseId = some record ∧
      (StandsFor c record ∧ ensured? c = none ∨
        ensured? c = some ⟨record.connectionKey, .accepted⟩) := by
  have hp : ∃ peer, c.session.requirePeer = .ok peer := by
    rcases hp : c.session.requirePeer with e | peer
    · rw [ensureAssociated_eq, hp] at h
      cases h
    · exact ⟨peer, rfl⟩
  obtain ⟨peer, hp⟩ := hp
  obtain ⟨hash, b, hc, hl, hb⟩ := ensureAssociated_eq_ok h
  obtain rfl := Registry.databaseId_of_lookup hl
  have hensured : ensured? c = if b.association = .validated then none else tested? record b := by
    simp only [ensured?, hp, hc, hl]
  rcases hb with ⟨hv, rfl⟩ | ⟨hv, d', ht, rfl⟩
  · have hk : Keeps c d := after_of_ok hc ▸ .currentDatabase c
    have hstands : StandsFor d record := ⟨hv, databaseHash_of_currentDatabase hc, hl⟩
    exact ⟨hl, .inl ⟨hstands.of_keeps hk, by rw [hensured, if_pos hv]⟩⟩
  · have hverdict : verdict? record b = some .accepted := testAssociate_eq_valid_iff.1 ⟨d', ht⟩
    have htest := testAssociate_of_verdict record b
    rw [hverdict] at htest
    obtain ⟨d'', ht', hkeep⟩ := htest
    cases ht.symm.trans ht'
    have hlookup : d'.registry.lookup = b.registry.lookup := hkeep.elim (·.lookup_eq) (·.1)
    refine ⟨hlookup ▸ hl, .inr ?_⟩
    rw [hensured, if_neg hv, tested?, hverdict]
    rfl

theorem Heeds.accepted (h : Heeds history misled c) (hc : ensureAssociated c = .ok record d) :
    latest? record.connectionKey (history ++ (ensured? c).toList) = some .accepted ∨
      misled record := by
  rw [latest?_append]
  rcases (standsFor_or_accepted hc).2 with ⟨hs, hnone⟩ | hsome
  · rw [hnone]
    exact h record hs
  · rw [hsome]
    exact .inl (if_pos rfl)

theorem Heeds.ensureAssociated (h : Heeds history misled c) :
    Heeds (history ++ (ensured? c).toList) misled (after ensureAssociated c) := by
  rcases hc : Client.ensureAssociated c with ⟨ensured, d⟩ | ⟨e, d⟩
  · rw [after_of_ok hc]
    intro record hs
    obtain ⟨notes, -, ⟨hd, -⟩ | ⟨hd, -⟩⟩ := makesSure c ensured d hc
    · cases hd.symm.trans hs.databaseHash_eq
    · obtain rfl := hs.eq hd (standsFor_or_accepted hc).1
      exact h.accepted hc
  · rw [after_of_error hc]
    intro record hs
    have hnone : ensured? c = none := by
      unfold ensured?
      rcases unchecked_of_ensureAssociated_eq_error hc hs.validated with ⟨hp, -⟩ | hcurrent
      · rw [hp]
      · rw [hcurrent]
        cases c.session.requirePeer <;> rfl
    rw [latest?_append, hnone]
    exact h record (hs.of_keeps (keeps_of_ensureAssociated_eq_error hc hs.validated))

/-! ## Associating -/

theorem granted?_of_associate (h : associate c = .ok record d) :
    granted? c = some ⟨record.connectionKey, .accepted⟩ := by
  rw [associate_eq] at h
  unfold granted?
  rcases hp : c.session.requirePeer with e | _ <;> simp only [hp] at h ⊢
  · cases h
  rcases hr : roundTrip .associate (associateFields c) false c.afterFreshKey with
    ⟨body, b⟩ | ⟨e, b⟩ <;> simp only [hr] at h ⊢
  · rcases hh : requireText body "hash" with e | databaseId <;> simp only [hh] at h
    · cases h
    rcases hn : requireText body "id" with e | name <;> simp only [hn] at h
    · cases h
    have hname : named? body = some name := requireText_eq_ok_iff.1 hn
    rw [hname]
    split at h <;> cases h
    rfl
  · cases h

theorem Heeds.associate (h : Heeds history misled c) :
    Heeds (history ++ (granted? c).toList) misled (after associate c) := by
  rcases associate_keeps_or c with ⟨e, d, hc, hk⟩ | ⟨new, d, hc, -, hd, hl⟩
  · exact after_of_error hc ▸ (h.accept (granted?_accepts c)).keeps hk
  · rw [after_of_ok hc]
    intro record hs
    obtain rfl := hs.eq hd ((hl _).trans (if_pos rfl))
    rw [latest?_append, granted?_of_associate hc]
    exact .inl (if_pos rfl)

/-! ## Checks that mislead -/

/-- A call checks a record on its own and leaves a client that stands for a record of which the proxy
did not say so: the check refused this very record, or it accepted another one of its database. -/
def Misleads (operation : Operation) (c : Client σ) (record : Association) : Prop :=
  StandsFor (perform operation c) record ∧ ∃ tested, checked? operation c = some tested ∧
    (verdict? tested c = some .refused ∧ tested.connectionKey = record.connectionKey ∨
      verdict? tested c = some .accepted ∧ tested.connectionKey ≠ record.connectionKey ∧
        tested.databaseId = record.databaseId)

theorem Heeds.testAssociate (h : Heeds history misled c) {operation : Operation}
    {tested : Association} (hc : checked? operation c = some tested) :
    Heeds (history ++ (tested? tested c).toList) (fun r => misled r ∨ Misleads operation c r)
      (perform operation c) := by
  have htest := testAssociate_of_verdict tested c
  have hperform := perform_of_checked hc
  intro record hs
  have hmisled (hverdict : verdict? tested c = some .refused ∧
        tested.connectionKey = record.connectionKey ∨
      verdict? tested c = some .accepted ∧ tested.connectionKey ≠ record.connectionKey ∧
        tested.databaseId = record.databaseId) : Misleads operation c record :=
    ⟨hs, tested, hc, hverdict⟩
  rw [hperform] at hs
  rw [latest?_append, tested?]
  rcases hv : verdict? tested c with _ | _ | _ | _ <;> rw [hv] at htest hmisled <;>
    simp only [Option.map_none, Option.map_some]
  case none =>
    obtain ⟨e, d, ht, hk⟩ := htest
    rw [after_of_error ht] at hs
    exact (h record (hs.of_keeps hk)).imp_right .inl
  case some.accepted =>
    obtain ⟨d, ht, hd⟩ := htest
    rw [after_of_ok ht] at hs
    split
    · exact .inl rfl
    · rename_i hne
      rcases hd with hk | ⟨-, -, hhash⟩
      · exact (h record (hs.of_keeps hk)).imp_right .inl
      · exact .inr (.inr (hmisled (.inr ⟨rfl, hne,
          Option.some.inj (hhash.symm.trans hs.databaseHash_eq)⟩)))
  case some.elsewhere =>
    obtain ⟨d, ht, -, hunknown, -⟩ := htest
    rw [after_of_ok ht] at hs
    cases hunknown.symm.trans hs.validated
  case some.refused =>
    obtain ⟨d, ht, hk⟩ := htest
    rw [after_of_ok ht] at hs
    split
    · rename_i heq
      exact .inr (.inr (hmisled (.inl ⟨rfl, heq⟩)))
    · exact (h record (hs.of_keeps hk)).imp_right .inl

theorem Heeds.perform (h : Heeds history misled c) (operation : Operation) :
    Heeds (history ++ (testimony? operation c).toList)
      (fun r => misled r ∨ Misleads operation c r) (perform operation c) := by
  have hweaken {history : List Testimony} {d : Client σ} (h : Heeds history misled d) :
      Heeds history (fun r => misled r ∨ Misleads operation c r) d :=
    fun record hs => (h record hs).imp_right .inl
  by_cases he : operation.ensures = true
  · rw [testimony?_of_ensures he]
    exact hweaken (h.ensureAssociated.keeps (perform_of_ensures he c).1)
  by_cases ha : operation = .associate
  · subst ha
    exact hweaken h.associate
  rcases hc : checked? operation c with _ | tested
  · have he' := Bool.eq_false_iff.2 he
    rw [testimony?_eq_none he' ha hc, Option.toList_none, List.append_nil]
    exact hweaken (h.keeps (keeps_perform he' ha hc))
  · rw [testimony?_of_checked hc]
    exact h.testAssociate hc

/-! ## Runs -/

/-- What the proxy says of associations in a run, in order. -/
def testimonies : List (Move σ) → Client σ → List Testimony
  | [], _ => []
  | .call operation :: moves, c =>
    (testimony? operation c).toList ++ testimonies moves (perform operation c)
  | move :: moves, c => testimonies moves (move.apply c)

theorem testimonies_append (moves more : List (Move σ)) (c : Client σ) :
    testimonies (moves ++ more) c = testimonies moves c ++ testimonies more (run moves c) := by
  induction moves generalizing c with
  | nil => rfl
  | cons move moves ih =>
    cases move with
    | call => exact (congrArg _ (ih _)).trans (List.append_assoc _ _ _).symm
    | proxy | share => exact ih _

theorem testimonies_snoc (moves : List (Move σ)) (operation : Operation) (c : Client σ) :
    testimonies (moves ++ [.call operation]) c =
      testimonies moves c ++ (testimony? operation (run moves c)).toList := by
  rw [testimonies_append]
  exact congrArg _ (List.append_nil _)

/-- One of the moves misled the client about a record. -/
def Misled (moves : List (Move σ)) (start : Client σ) (record : Association) : Prop :=
  ∃ earlier operation later, moves = earlier ++ .call operation :: later ∧
    Misleads operation (run earlier start) record

/-- Unless other clients change the registry during the moves, a client that makes sure of a record after
them has it that the latest word on the record is its acceptance, or one of the moves misled it. -/
def Heedful (moves : List (Move σ)) (start : Client σ) : Prop :=
  (∀ registry, .share registry ∉ moves) → ∀ record d,
    ensureAssociated (run moves start) = .ok record d →
    latest? record.connectionKey (testimonies (moves ++ [.call .ensureAssociated]) start) =
        some .accepted ∨ Misled moves start record

theorem heeds_run (moves : List (Move σ)) (hm : ∀ registry, .share registry ∉ moves)
    (start : Client σ) (h : start.association ≠ .validated) :
    Heeds (testimonies moves start) (Misled moves start) (run moves start) := by
  induction moves using List.reverseRecOn with
  | nil => exact fun _ hs => absurd hs.validated h
  | append_singleton moves move ih =>
    have ih := ih fun registry hs => hm registry (List.mem_append_left _ hs)
    have hrun : run (moves ++ [move]) start = move.apply (run moves start) := run_append _ _ _
    have hlater {record : Association} (hmis : Misled moves start record) :
        Misled (moves ++ [move]) start record := by
      obtain ⟨earlier, operation, later, rfl, hmis⟩ := hmis
      exact ⟨earlier, operation, later ++ [move], by simp, hmis⟩
    rw [hrun]
    cases move with
    | call operation =>
      rw [testimonies_snoc]
      intro record hs
      rcases ih.perform operation record hs with hl | hmis | hmis
      · exact .inl hl
      · exact .inr (hlater hmis)
      · exact .inr ⟨moves, operation, [], rfl, hmis⟩
    | proxy arrivals clock writeFault answers =>
      have hnone : testimonies [.proxy arrivals clock writeFault answers] (run moves start) = [] := rfl
      rw [testimonies_append, hnone, List.append_nil]
      exact fun record hs => (ih record ⟨hs.1, hs.2, hs.3⟩).imp_right hlater
    | share registry => exact absurd (List.mem_append_right _ List.mem_cons_self) (hm registry)

theorem heedful_run (moves : List (Move σ)) (clock : Instant) (config : Config)
    (registry : Registry σ) (entropy : Entropy) :
    Heedful moves (new clock config registry entropy) := by
  intro hm record d hc
  rw [testimonies_snoc]
  exact (heeds_run moves hm _ (by simp [new])).accepted hc

/-! ## A refusal that is not heeded -/

/-- A client that stands for a record makes sure of it without asking. -/
theorem StandsFor.ensureAssociated_eq {peer : PublicKey} (h : StandsFor c record)
    (hp : c.session.requirePeer = .ok peer) :
    ensureAssociated c = .ok record c ∧ ensured? c = none := by
  rw [Client.ensureAssociated_eq, ensured?, hp, currentDatabase_eq, h.databaseHash_eq]
  simp only [h.lookup_eq, if_pos h.validated, and_self]

/-- A client can be told of an association. -/
theorem exists_seekApproval_prompt (h : Idle c peer place) (hp : place + 2 ≤ Nonce.count) :
    ∃ last d, seekApproval ((prompt [] last).apply c) = .ok ⟨"database", "name", c.freshKey⟩ d ∧
      Idle d peer (place + 2) ∧ d.registry = c.registry := by
  have hbody : Table.Ordered [("hash", Json.string "database"), ("id", .string "name"),
      ("success", .string "true")] :=
    Table.ordered_of_names (show ["hash", "id", "success"].Pairwise (· < ·) by decide)
  have hconfirms (nonce : Nonce) : Confirms .associate nonce [("hash", .string "database"),
      ("id", .string "name"), ("success", .string "true")] := .of_unnamed rfl rfl rfl _ _
  have hmade : Idle c.afterFreshKey peer place := h.congr rfl rfl rfl rfl
  obtain ⟨last, d, hround, ⟨link, nonces, journal, rfl⟩, hidle⟩ := exists_roundTrip_boxed hmade hp rfl
    Json.AreTexts.nil.cons.cons.cons hbody hconfirms (associateFields c) false []
  have hseek := seekApproval_of_ok (c := (prompt [] last).apply c) (h.prompt [] last).requirePeer_eq
    hround rfl rfl
  exact ⟨last, _, hseek, hidle, rfl⟩

/-- A client without records that is told of an association stands for it. -/
theorem exists_associate_prompt {c : Client MemoryStore} {peer : PublicKey} {place : Nat}
    (h : Idle c peer place) (hp : place + 2 ≤ Nonce.count) (hr : c.registry = ⟨[], {}⟩) :
    ∃ last record d, associate ((prompt [] last).apply c) = .ok record d ∧
      Idle d peer (place + 2) ∧ StandsFor d record := by
  obtain ⟨last, d, hseek, hidle, hregistry⟩ := exists_seekApproval_prompt h hp
  let record : Association := ⟨"database", "name", c.freshKey⟩
  have hinsert : d.registry.insert record =
      (.ok (), { Registry.alone record with store := ⟨[record.toStored], 1, none⟩ }) := by
    rw [hregistry, hr]
    exact Registry.insert_of_ok rfl
  have hassociate := (bind_of_ok hseek adopt).trans (adopt_of_ok hinsert)
  rw [← associate_eq_stages] at hassociate
  exact ⟨last, record, _, hassociate, hidle.congr rfl rfl rfl rfl, rfl, rfl, rfl⟩

/-- A client can be refused any record. -/
theorem exists_testAssociate_prompt (h : Idle c peer place) (hp : place + 2 ≤ Nonce.count)
    (record : Association) :
    ∃ last d, testAssociate record ((prompt [] last).apply c) = .ok .invalid d ∧
      verdict? record ((prompt [] last).apply c) = some .refused ∧ Hears [] c d ∧
      Idle d peer (place + 2) := by
  let failure : Failure := ⟨.testAssociate, .associationFailed, "refused"⟩
  obtain ⟨last, d, hround, hears, hidle⟩ :=
    exists_roundTrip_refused h hp (show Outbound.sendable failure.action = true from rfl)
      (show ErrorCode.ofJson (.string "8") = .ok failure.code from rfl) rfl (checkFields record) false
  obtain ⟨hverdict, htest⟩ :=
    testAssociate_of_notAssociated (h.prompt [] last).requirePeer_eq hround
  exact ⟨last, d, htest, hverdict, hears, hidle⟩

/-- A client that stands for a record still does after a check that refused it. -/
theorem exists_testAssociate_refused (h : Idle c peer place) (hp : place + 2 ≤ Nonce.count)
    (hs : StandsFor c record) :
    ∃ last d, perform (.testAssociate record) ((prompt [] last).apply c) = d ∧
      verdict? record ((prompt [] last).apply c) = some .refused ∧
      Idle d peer (place + 2) ∧ StandsFor d record := by
  obtain ⟨last, d, htest, hverdict, ⟨link, nonces, journal, rfl⟩, hidle⟩ :=
    exists_testAssociate_prompt h hp record
  exact ⟨last, _, after_of_ok htest, hverdict, hidle, hs.validated, hs.databaseHash_eq, hs.lookup_eq⟩

/-- A client does not always heed the latest word on the record that it makes sure of: after a check that
refused the record it makes sure of it without asking. -/
theorem not_forall_latest_ne_refused :
    ¬ ∀ (moves : List (Move MemoryStore)) (clock : Instant) (config : Config)
      (registry : Registry MemoryStore) (entropy : Entropy) (record : Association)
      (d : Client MemoryStore),
      (∀ shared, .share shared ∉ moves) →
      ensureAssociated (run moves (new clock config registry entropy)) = .ok record d →
      ∃ verdict, latest? record.connectionKey (testimonies (moves ++ [.call .ensureAssociated])
        (new clock config registry entropy)) = some verdict ∧ verdict ≠ .refused := by
  intro h
  obtain ⟨first, peer, b, hb, hidle, hregistry, -⟩ :=
    exists_introduced (⟨[], {}⟩ : Registry MemoryStore)
  obtain ⟨second, record, c, hassociate, hidle, hstands⟩ :=
    exists_associate_prompt hidle (by decide) hregistry
  obtain ⟨third, d, hd, hverdict, hidle, hstands⟩ :=
    exists_testAssociate_refused hidle (by decide) hstands
  obtain ⟨hensure, hensured⟩ := hstands.ensureAssociated_eq hidle.requirePeer_eq
  have h := h ([prompt [] first, .call .shakeHands] ++ [prompt [] second, .call .associate] ++
    [prompt [] third] ++ [.call (.testAssociate record)]) 0 usual ⟨[], {}⟩ (.ofBytes []) record d
  generalize new 0 usual (⟨[], {}⟩ : Registry MemoryStore) (.ofBytes []) = start at h hb
  have hc : run ([prompt [] first, .call .shakeHands] ++ [prompt [] second, .call .associate]) start =
      c := by
    rw [run_prompt_call, hb]
    exact after_of_ok hassociate
  have hasked : run ([prompt [] first, .call .shakeHands] ++ [prompt [] second, .call .associate] ++
      [prompt [] third]) start = (prompt [] third).apply c := by
    rw [run_append, hc]
    rfl
  have hrun : run ([prompt [] first, .call .shakeHands] ++ [prompt [] second, .call .associate] ++
      [prompt [] third] ++ [.call (.testAssociate record)]) start = d := by
    rw [run_append, hasked]
    exact hd
  obtain ⟨verdict, hlatest, hne⟩ := h (by simp [prompt]) (by rw [hrun]; exact hensure)
  have hsays : testimony? .ensureAssociated d = none := hensured
  have hrefused : testimony? (.testAssociate record) ((prompt [] third).apply c) =
      some ⟨record.connectionKey, .refused⟩ := by
    rw [testimony?_of_checked rfl, tested?, hverdict]
    rfl
  rw [testimonies_snoc, hrun, hsays, latest?_append, testimonies_snoc, hasked, hrefused,
    latest?_append] at hlatest
  simp only [if_true] at hlatest
  exact hne (Option.some.inj hlatest).symm

end VaultLink.Client
