import VaultLink.Proofs.Wire.Delivery

/-!
# Bytes at hand

A link delivers the message that the bytes at hand start with before anything else, and so it is with a
signal (`Link.Holds.exists_eq_cons`). Whether bytes are at hand or arrive next is no matter
(`Link.Brings.of_unread`). Waiting does not bring about that writes fail unless the stream is hung up
(`Link.Sound.of_brings`). Without a wait nothing is read and no time passes (`Link.Undisturbed`).
-/

namespace VaultLink

namespace Link

variable {link link' : Link} {s : Signal} {signals : List Signal} {received : Received}

/-- The bytes at hand start with a signal. -/
def Holds (link : Link) (s : Signal) : Prop :=
  ∃ text rest, Frame.split link.buffer = .message text rest ∧ Inbound.decode text = .ok (.signal s)

theorem Holds.congr (h : link.Holds s) (hb : link'.buffer = link.buffer) : link'.Holds s := by
  unfold Holds
  rw [hb]
  exact h

/-- The bytes at hand are delivered at once. -/
theorem Holds.signal?_receive (h : link.Holds s) (deadline : Option Instant) :
    (link.receive deadline).1.signal? = some s := by
  obtain ⟨text, rest, hsplit, hdec⟩ := h
  have hhand : atHand link.buffer = .settled (.message text) rest := by
    rw [atHand, hsplit]
  have hread : (readFrom deadline link.buffer link.clock link.arrivals).outcome = .message text := by
    cases link.arrivals <;> rw [readFrom] <;> simp only [hhand]
  simp only [receive, hread, Received.signal?, hdec]

/-- A signal at hand is brought first. -/
theorem Holds.exists_eq_cons (h : link.Holds s) {deadline : Instant}
    (hb : link.Brings deadline signals received link') : ∃ more, signals = s :: more := by
  have hfirst := h.signal?_receive (some deadline)
  cases hb with
  | last hr hs =>
    rw [hr, hs] at hfirst
    cases hfirst
  | @signal _ _ _ _ _ s' more hr hs _ =>
    rw [hr, hs] at hfirst
    cases hfirst
    exact ⟨more, rfl⟩

/-- Bytes at hand are as good as bytes that arrive next. -/
theorem receive_unread (deadline : Option Instant) (link : Link) :
    receive deadline { link with buffer := [], arrivals := .data link.buffer :: link.arrivals } =
      receive deadline link := by
  have hempty : atHand [] = .wanting [] := rfl
  simp only [receive, readFrom, hempty, List.nil_append]

/-- What a link brings depends on the first wait. -/
theorem Brings.of_receive_eq {deadline : Instant} {next : Link}
    (h : next.Brings deadline signals received link')
    (hr : link.receive (some deadline) = next.receive (some deadline)) :
    link.Brings deadline signals received link' := by
  cases h with
  | last h hs => exact .last (hr.trans h) hs
  | signal h hs hb => exact .signal (hr.trans h) hs hb

theorem Brings.of_unread {deadline : Instant}
    (h : Brings deadline { link with buffer := [], arrivals := .data link.buffer :: link.arrivals }
      signals received link') : link.Brings deadline signals received link' :=
  h.of_receive_eq (receive_unread _ link).symm

/-- No write fails from here on, unless something else happens: no fault is set, and nothing hangs the
stream up. -/
structure Sound (link : Link) : Prop where
  writeFault_eq : link.writeFault = none
  hangUp_not_mem : .hangUp ∉ link.arrivals

theorem isHungUp_eq_false {arrivals : List Arrival} (h : .hangUp ∉ arrivals) (clock : Instant) :
    isHungUp clock arrivals = false := by
  induction arrivals with
  | nil => rfl
  | cons arrival more ih =>
    rw [List.mem_cons, not_or] at h
    cases arrival with
    | data => exact ih h.2
    | hold t => rw [isHungUp, ih h.2, Bool.and_false]
    | hangUp => exact absurd rfl h.1
    | pause | close | fault => rfl

theorem Sound.writeFailure?_eq (h : link.Sound) : link.writeFailure? = none := by
  rw [writeFailure?, h.writeFault_eq]
  simp only [isHungUp_eq_false h.hangUp_not_mem, Bool.false_eq_true, if_false]

theorem hangUp_not_mem_readFrom {deadline : Option Instant} {buffer : Bytes} {clock : Instant}
    {arrivals : List Arrival} (h : .hangUp ∉ arrivals) :
    .hangUp ∉ (readFrom deadline buffer clock arrivals).arrivals := by
  induction arrivals generalizing buffer clock with
  | nil =>
    unfold readFrom
    split
    · exact List.not_mem_nil
    · unfold idle
      split <;> exact List.not_mem_nil
  | cons arrival more ih =>
    have hmore : .hangUp ∉ more := fun hm => h (List.mem_cons_of_mem _ hm)
    unfold readFrom
    split
    · exact h
    · cases arrival with
      | data => exact ih hmore
      | hangUp => exact absurd List.mem_cons_self h
      | close => exact h
      | fault => exact hmore
      | pause | hold =>
        simp only
        split
        · split
          · simpa using hmore
          · exact ih hmore
        · exact ih hmore

theorem Sound.of_brings {deadline : Instant} (h : link.Sound)
    (hb : link.Brings deadline signals received link') : link'.Sound := by
  induction hb with
  | last hr =>
    cases hr
    exact ⟨h.writeFault_eq, hangUp_not_mem_readFrom h.hangUp_not_mem⟩
  | signal hr _ _ ih =>
    cases hr
    exact ih ⟨h.writeFault_eq, hangUp_not_mem_readFrom h.hangUp_not_mem⟩

/-! ## Without a wait -/

/-- From one state of a link to another, nothing was read and no time passed. -/
structure Undisturbed (link link' : Link) : Prop where
  buffer_eq : link'.buffer = link.buffer
  clock_eq : link'.clock = link.clock

theorem Undisturbed.refl (link : Link) : link.Undisturbed link := ⟨rfl, rfl⟩

theorem Undisturbed.trans {next : Link} (h : link.Undisturbed next) (h' : next.Undisturbed link') :
    link.Undisturbed link' :=
  ⟨h'.buffer_eq.trans h.buffer_eq, h'.clock_eq.trans h.clock_eq⟩

/-- Writing reads nothing. -/
theorem undisturbed_of_send {message : Bytes} {result : Except Error Unit}
    (h : link.send message = (result, link')) : link.Undisturbed link' := by
  unfold send at h
  split at h
  · cases h
    exact ⟨rfl, rfl⟩
  · split at h <;> cases h <;> exact ⟨rfl, rfl⟩

end Link

end VaultLink
