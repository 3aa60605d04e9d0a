import VaultLink.Proofs.Client.Prompting

/-!
# A validated association and the current database

A client that takes its association for validated knows the current database, unless a signal overtook
the check by which it made sure of the association and the reply did not report the database
(`Overtaken`). Then, and only then, it goes on without knowing the database (`grounded_run`).
-/

namespace VaultLink.Client

variable {σ : Type} {c d : Client σ}

/-- The last note is an accepted reply to a check that reports no database, and the one before it is a
signal. -/
def Overtaken (notes : List Note) : Prop :=
  ∃ past s reply body, notes = past ++ [.signal s, .accepted reply body] ∧
    reply.action = .testAssociate ∧ reported? body = none

theorem Overtaken.append {notes : List Note} (h : Overtaken notes) (before : List Note) :
    Overtaken (before ++ notes) := by
  obtain ⟨past, s, reply, body, rfl, ha, hr⟩ := h
  exact ⟨before ++ past, s, reply, body, by rw [List.append_assoc], ha, hr⟩

theorem not_overtaken_nil : ¬ Overtaken [] := by
  rintro ⟨past, s, reply, body, h, -⟩
  exact absurd h (by simp)

/-- An exchange was overtaken if a signal came before its reply, which answers a check and reports no
database. -/
theorem overtaken_passage_iff {m : Outbound} {signals : List Signal} {reply : BoxedReply}
    {body : Json.Members} {before : List Note} :
    Overtaken (before ++ passage (some m) signals (some (reply, body))) ↔
      signals ≠ [] ∧ reply.action = .testAssociate ∧ reported? body = none := by
  constructor
  · rintro ⟨past, s, reply', body', h, ha, hr⟩
    rcases List.eq_nil_or_concat signals with rfl | ⟨heard, last, rfl⟩
    · -- only the message stands before the reply
      have hmessage : (before ++ [.sent m]) ++ [.accepted reply body] =
          (past ++ [.signal s]) ++ [.accepted reply' body'] := by
        simpa [passage, answerNotes] using h
      obtain ⟨hlast, -⟩ := List.append_inj' hmessage rfl
      obtain ⟨-, hnote⟩ := List.append_inj' hlast rfl
      cases hnote
    · have hsignal : (before ++ .sent m :: heard.map .signal ++ [.signal last]) ++
          [.accepted reply body] = (past ++ [.signal s]) ++ [.accepted reply' body'] := by
        simpa [passage, answerNotes] using h
      obtain ⟨-, hreply⟩ := List.append_inj' hsignal rfl
      cases hreply
      exact ⟨by simp, ha, hr⟩
  · rintro ⟨hs, ha, hr⟩
    rcases List.eq_nil_or_concat signals with rfl | ⟨heard, last, rfl⟩
    · exact absurd rfl hs
    · exact ⟨before ++ .sent m :: heard.map .signal, last, reply, body,
        by simp [passage, answerNotes], ha, hr⟩

/-- A validated association is one with a known database, unless the check was overtaken and no signal
came since. -/
def Grounded (c : Client σ) : Prop :=
  c.association = .validated → c.databaseHash ≠ none ∨
    ∃ past later, c.journal = past ++ later ∧ Overtaken past ∧ ∀ s, .signal s ∉ later

theorem Grounded.keeps (h : Grounded c) (hk : Keeps c d) : Grounded d := by
  intro hv
  obtain ⟨hc, hhash, notes, hj, hn⟩ := hk.standing hv
  rw [hhash, hj]
  refine (h hc).imp_right ?_
  rintro ⟨past, later, hp, ho, hl⟩
  refine ⟨past, later ++ notes, by rw [hp, List.append_assoc], ho, fun s hs => ?_⟩
  rcases List.mem_append.1 hs with hs | hs
  · exact hl s hs
  · exact hn s hs

theorem Grounded.of_known {hash : String} (h : c.databaseHash = some hash) : Grounded c :=
  fun _ => .inl (by simp [h])

theorem Grounded.testAssociate (h : Grounded c) (record : Association) :
    Grounded (after (testAssociate record) c) := by
  have htest := testAssociate_of_verdict record c
  by_cases hvalid : verdict? record c = some .accepted
  · rw [hvalid] at htest
    obtain ⟨d, ht, hk | ⟨-, -, hd⟩⟩ := htest
    · exact after_of_ok ht ▸ h.keeps hk
    · exact after_of_ok ht ▸ .of_known hd
  · exact h.keeps (keeps_of_verdict_ne hvalid)

/-- Asking for the current database is no check. -/
theorem exists_notes_of_currentDatabase {hash : String} (h : currentDatabase c = .ok hash d) :
    ∃ notes, d.journal = c.journal ++ notes ∧ ¬ Overtaken notes := by
  rw [currentDatabase_eq] at h
  rcases hc : c.databaseHash with _ | known <;> simp only [hc] at h
  · rw [getDatabaseHash_eq] at h
    obtain ⟨message, signals, htrip⟩ :=
      exists_trip_roundTrip .getDatabaseHash [] c.config.triggerUnlock c
    rcases hr : roundTrip .getDatabaseHash [] c.config.triggerUnlock c with ⟨body, b⟩ | ⟨e, b⟩ <;>
      simp only [hr] at h htrip
    · rcases hq : requireText body "hash" with e | reported <;> simp only [hq] at h <;> cases h
      obtain ⟨reply, hpass⟩ := htrip
      obtain ⟨m, rfl, -⟩ := hpass.reply_nonce _ rfl
      refine ⟨_, hpass.journal_eq, fun ho => ?_⟩
      obtain ⟨-, ha, -⟩ := overtaken_passage_iff.1 (ho.append [])
      cases ha.symm.trans (hpass.reply_action _ rfl)
    · cases h
  · cases h
    exact ⟨[], (List.append_nil _).symm, not_overtaken_nil⟩

variable [AssociationStore σ]

/-- What a client made sure of is the association of the database that it knows, unless the check was
overtaken. -/
def MakesSure (c : Client σ) : Prop :=
  ∀ record d, ensureAssociated c = .ok record d → ∃ notes, d.journal = c.journal ++ notes ∧
    (d.databaseHash = none ∧ Overtaken notes ∨
      d.databaseHash = some record.databaseId ∧ ¬ Overtaken notes)

theorem makesSure (c : Client σ) : MakesSure c := by
  intro record d h
  obtain ⟨hash, b, hc, hl, hb⟩ := ensureAssociated_eq_ok h
  have hhash := databaseHash_of_currentDatabase hc
  obtain ⟨notes, hj, hn⟩ := exists_notes_of_currentDatabase hc
  have hrecord := Registry.databaseId_of_lookup hl
  rcases hb with ⟨-, rfl⟩ | ⟨-, d', ht, rfl⟩
  · exact ⟨notes, hj, .inr ⟨hrecord ▸ hhash, hn⟩⟩
  obtain ⟨body, answered, hr, hv, rfl⟩ := testAssociate_eq_valid ht
  obtain ⟨message, signals, htrip⟩ := exists_trip_roundTrip .testAssociate (checkFields record) false b
  rw [hr] at htrip
  obtain ⟨reply, hpass⟩ := htrip
  obtain ⟨m, rfl, -⟩ := hpass.reply_nonce _ rfl
  have ha : reply.action = .testAssociate := hpass.reply_action _ rfl
  have hd := hpass.databaseHash_eq
  refine ⟨notes ++ passage (some m) signals (some (reply, body)), ?_, ?_⟩
  · rw [← List.append_assoc, ← hj]
    exact hpass.journal_eq
  · simp only [overtaken_passage_iff, ha, true_and, not_and]
    rcases Verdict.reported?_of_accepted hv with hnone | hsome
    · rw [hnone, Option.none_or, hd]
      cases signals with
      | nil => exact .inr ⟨by rw [hrecord]; exact hhash, fun hs => absurd rfl hs⟩
      | cons s signals => exact .inl ⟨rfl, by simp, rfl⟩
    · rw [hsome]
      exact .inr ⟨rfl, fun _ => by simp⟩

theorem Grounded.ensureAssociated (h : Grounded c) : Grounded (after ensureAssociated c) := by
  rcases hc : Client.ensureAssociated c with ⟨record, d⟩ | ⟨e, d⟩
  · rw [after_of_ok hc]
    obtain ⟨notes, hj, ⟨-, ho⟩ | ⟨hd, -⟩⟩ := makesSure c record d hc
    · exact fun _ => .inr ⟨d.journal, [], (List.append_nil _).symm, hj ▸ ho.append _,
        fun _ => List.not_mem_nil⟩
    · exact .of_known hd
  · rw [after_of_error hc]
    exact fun hv => h.keeps (keeps_of_ensureAssociated_eq_error hc hv) hv

theorem Grounded.associate (h : Grounded c) : Grounded (after associate c) := by
  rcases associate_keeps_or c with ⟨e, d, hc, hk⟩ | ⟨record, d, hc, -, hd, -⟩
  · exact after_of_error hc ▸ h.keeps hk
  · exact after_of_ok hc ▸ .of_known hd

theorem Grounded.perform (h : Grounded c) (operation : Operation) :
    Grounded (perform operation c) := by
  by_cases he : operation.ensures = true
  · exact h.ensureAssociated.keeps (perform_of_ensures he c).1
  by_cases ha : operation = .associate
  · subst ha
    exact h.associate
  rcases hc : checked? operation c with _ | record
  · exact h.keeps (keeps_perform (Bool.eq_false_iff.2 he) ha hc)
  · rw [perform_of_checked hc]
    exact h.testAssociate record

theorem grounded_run (moves : List (Move σ)) (clock : Instant) (config : Config)
    (registry : Registry σ) (entropy : Entropy) :
    Grounded (run moves (new clock config registry entropy)) ∧
      MakesSure (run moves (new clock config registry entropy)) := by
  refine ⟨?_, makesSure _⟩
  have hmove (c : Client σ) (h : Grounded c) : Grounded (run moves c) := by
    induction moves generalizing c with
    | nil => exact h
    | cons move moves ih =>
      refine ih _ ?_
      cases move with
      | call operation => exact h.perform operation
      | proxy | share => exact h
  exact hmove _ fun hv => by cases hv

/-- A check that a signal overtakes leaves a client that made sure of a record, but knows no database. -/
theorem exists_ensureAssociated_overtaken :
    ∃ (moves : List (Move MemoryStore)) (clock : Instant) (config : Config)
      (registry : Registry MemoryStore) (entropy : Entropy) (record : Association)
      (d : Client MemoryStore),
      ensureAssociated (run moves (new clock config registry entropy)) = .ok record d ∧
        d.association = .validated ∧ d.databaseHash = none := by
  let record : Association := ⟨"database", "name", .ofSecret (.ofNatLE 32 1)⟩
  obtain ⟨moves, peer, c, hrun, hidle, -, -, hchecks⟩ := exists_checks record
  have hbody : Table.Ordered [("success", Json.string "true")] := List.pairwise_singleton _ _
  have hconfirms (nonce : Nonce) : Confirms .testAssociate nonce [("success", .string "true")] :=
    .of_unnamed rfl rfl rfl _ _
  obtain ⟨last, d, hr, ⟨link, nonces, journal, rfl⟩, -⟩ := exists_roundTrip_boxed hidle (by decide) rfl
    Json.AreTexts.nil.cons hbody hconfirms (checkFields record) false [.databaseUnlocked]
  have hensure := (hchecks [.databaseUnlocked] last).ensureAssociated_eq
  rw [testAssociate_of_ok (hidle.prompt _ _).requirePeer_eq hr, judgeTest_eq] at hensure
  have hstart : run (moves ++ [prompt [.databaseUnlocked] last])
      (new 0 usual (.alone record) (.ofBytes [])) = (prompt [.databaseUnlocked] last).apply c := by
    rw [run_append, hrun]
    rfl
  exact ⟨_, 0, usual, .alone record, .ofBytes [], record, _,
    (congrArg ensureAssociated hstart).trans hensure, rfl, rfl⟩

/-- Neither is a validated association always one with a known database, nor is the record that a client
made sure of always that of the database that it knows. -/
theorem not_forall_validated_known :
    (¬ ∀ (moves : List (Move MemoryStore)) (clock : Instant) (config : Config)
      (registry : Registry MemoryStore) (entropy : Entropy),
      (run moves (new clock config registry entropy)).association = .validated →
        ∃ hash, (run moves (new clock config registry entropy)).databaseHash = some hash) ∧
    ¬ ∀ (moves : List (Move MemoryStore)) (clock : Instant) (config : Config)
      (registry : Registry MemoryStore) (entropy : Entropy) (record : Association)
      (d : Client MemoryStore),
      ensureAssociated (run moves (new clock config registry entropy)) = .ok record d →
        d.databaseHash = some record.databaseId := by
  obtain ⟨moves, clock, config, registry, entropy, record, d, hensure, hv, hd⟩ :=
    exists_ensureAssociated_overtaken
  constructor
  · intro h
    have hrun : run (moves ++ [.call .ensureAssociated]) (new clock config registry entropy) = d := by
      rw [run_append]
      exact after_of_ok hensure
    obtain ⟨hash, hhash⟩ := h (moves ++ [.call .ensureAssociated]) clock config registry entropy
      (by rw [hrun]; exact hv)
    rw [hrun, hd] at hhash
    cases hhash
  · intro h
    have hhash := h moves clock config registry entropy record d hensure
    rw [hd] at hhash
    cases hhash

end VaultLink.Client
