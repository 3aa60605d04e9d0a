import VaultLink.Proofs.Crypto.Counting

/-!
# Drawing nonce after nonce

Nonces are compared as the numbers that they are (`compareLE_eq_compare`), and the only one that cannot be
incremented is the one whose bytes are all the largest (`increment_eq_none_iff_bytes`). A sequencer moves
one place on with every draw until no nonce is left, and stays there (`position_after`); what a draw gives
is told by where the sequencer stands (`draw_of_position_lt`, `draw_of_position_eq`), and looking ahead
tells it too (`peek?_eq_iff_draw`). So the draws count up from the seed, the largest nonce comes once, and
all further draws fail (`counts_up`).
-/

namespace VaultLink

namespace Bytes

theorem compare_toNat (a b : UInt8) : compare a b = compare a.toNat b.toNat := by
  simp only [compare, compareOfLessAndEq, UInt8.lt_iff_toNat_lt, ← UInt8.toNat_inj]

/-- The higher digits decide, and the lowest one where they agree. -/
theorem compare_then_digit {m n d e : Nat} (hd : d < 256) (he : e < 256) :
    (compare m n).then (compare d e) = compare (d + 256 * m) (e + 256 * n) := by
  rcases Nat.lt_trichotomy m n with hlt | rfl | hgt
  · have hsum : d + 256 * m < e + 256 * n := by omega
    rw [Nat.compare_eq_lt.2 hlt, Nat.compare_eq_lt.2 hsum, Ordering.lt_then]
  · rw [Nat.compare_eq_eq.2 rfl, Ordering.eq_then]
    simp only [Nat.compare_eq_ite_lt, Nat.add_lt_add_iff_right]
  · have hsum : e + 256 * n < d + 256 * m := by omega
    rw [Nat.compare_eq_gt.2 hgt, Nat.compare_eq_gt.2 hsum, Ordering.gt_then]

end Bytes

namespace Nonce

/-- There are as many nonces as numbers of 192 bits. -/
theorem count_eq : count = Nat.pow 2 192 := by decide

/-- The carry runs past the last byte only if every byte is the largest one, and then it does. -/
theorem incrementBytes_eq_none_iff {bs : Bytes} : incrementBytes bs = none ↔ ∀ b ∈ bs, b = 255 := by
  induction bs with
  | nil => simp [incrementBytes]
  | cons b bs ih =>
    rw [incrementBytes, List.forall_mem_cons, ← ih]
    by_cases hb : b = 255 <;> simp [hb]

theorem increment_eq_none_iff_bytes {a : Nonce} : a.increment = none ↔ ∀ b ∈ a.bytes, b = 255 := by
  rw [← incrementBytes_eq_none_iff]
  unfold increment
  split
  · rename_i hsome
    simp [hsome]
  · rename_i hnone
    simp [hnone]

/-- Byte strings of one length are compared as the numbers that they spell. -/
theorem compareBytes_eq_compare {as bs : Bytes} (h : as.length = bs.length) :
    compareBytes as bs = compare (Bytes.toNatLE as) (Bytes.toNatLE bs) := by
  induction as generalizing bs with
  | nil =>
    obtain rfl := List.length_eq_zero_iff.1 h.symm
    rfl
  | cons a as ih =>
    obtain ⟨b, bs, rfl⟩ := List.exists_cons_of_length_eq_add_one h.symm
    rw [compareBytes, ih (Nat.succ.inj h), Bytes.compare_toNat,
      Bytes.compare_then_digit a.toNat_lt b.toNat_lt]
    rfl

/-- Nonces are compared as numbers. -/
theorem compareLE_eq_compare (a b : Nonce) : a.compareLE b = compare a.toNatLE b.toNatLE :=
  compareBytes_eq_compare (a.length_bytes.trans b.length_bytes.symm)

-- The first byte is the least significant one.
example : compareLE (.ofNatLE 24 0x00FF) (.ofNatLE 24 0x0100) = .lt := by decide

end Nonce

namespace Sequencer

/-- The sequencer after `k` draws, whether or not they gave a nonce. -/
def after (s : Sequencer) : (k : Nat) → Sequencer
  | 0 => s
  | k + 1 => (s.after k).draw.2

/-! ## One draw -/

/-- While nonces are left, a draw gives the one whose number is the position. -/
theorem draw_of_position_lt {s : Sequencer} (h : s.position < Nonce.count) :
    ∃ nonce, s.draw.1 = .ok nonce ∧ nonce.toNatLE = s.position := by
  obtain ⟨nonce, t, hd⟩ := exists_draw_eq_ok h
  exact ⟨nonce, by rw [hd], (draw_eq_ok hd).1⟩

/-- At the end a draw fails. -/
theorem draw_of_position_eq {s : Sequencer} (h : s.position = Nonce.count) :
    s.draw.1 = .error .nonceExhausted := by
  rcases hd : s.draw with ⟨fault | nonce, t⟩
  · rw [(draw_eq_error hd).1]
  · have hlt : nonce.toNatLE < Nonce.count := nonce.toNatLE_lt
    have := (draw_eq_ok hd).1
    omega

/-- A draw moves one place on, but not beyond the end. -/
theorem position_draw (s : Sequencer) : s.draw.2.position = min (s.position + 1) Nonce.count := by
  rcases hd : s.draw with ⟨fault | nonce, t⟩
  · obtain ⟨-, rfl, hend⟩ := draw_eq_error hd
    show t.position = _
    omega
  · have hnext := (draw_eq_ok hd).2
    have := t.position_le
    show t.position = _
    omega

/-- Looking ahead shows what the next draw gives, and nothing just if that fails. -/
theorem peek?_eq_iff_draw (s : Sequencer) :
    (∀ nonce, s.peek? = some nonce ↔ s.draw.1 = .ok nonce) ∧
      (s.peek? = none ↔ s.draw.1 = .error .nonceExhausted) := by
  unfold peek? draw
  cases s.upcoming <;> simp

/-! ## Many draws -/

/-- After `k` draws a sequencer stands `k` places further on, or at the end. -/
theorem position_after (s : Sequencer) (k : Nat) :
    (s.after k).position = min (s.position + k) Nonce.count := by
  induction k with
  | zero => exact (Nat.min_eq_left s.position_le).symm
  | succ k ih =>
    rw [after, position_draw, ih]
    omega

/-- Nonces are counted as numbers of 192 bits. Incrementing adds one, and only the nonce whose bytes are all
the largest cannot be incremented; comparing is comparing the numbers; and a sequencer gives, from its seed
on, each number up to the largest once and in order, and nothing from then on. Before each draw, looking
ahead shows what it gives. -/
theorem counts_up :
    (∀ a : Nonce, a.toNatLE < Nat.pow 2 192 - 1 →
      ∃ b, a.increment = some b ∧ b.toNatLE = a.toNatLE + 1) ∧
    (∀ a : Nonce, a.increment = none ↔ ∀ byte ∈ a.bytes, byte = 255) ∧
    (∀ a b : Nonce, a.compareLE b = compare a.toNatLE b.toNatLE) ∧
    ∀ (seed : Nonce) (k : Nat),
      (seed.toNatLE + k < Nat.pow 2 192 →
        ∃ nonce, ((new seed).after k).draw.1 = .ok nonce ∧ nonce.toNatLE = seed.toNatLE + k) ∧
      (Nat.pow 2 192 ≤ seed.toNatLE + k → ((new seed).after k).draw.1 = .error .nonceExhausted) ∧
      (∀ nonce, ((new seed).after k).peek? = some nonce ↔ ((new seed).after k).draw.1 = .ok nonce) ∧
      (((new seed).after k).peek? = none ↔ ((new seed).after k).draw.1 = .error .nonceExhausted) := by
  simp only [← Nonce.count_eq]
  refine ⟨fun a ha => ?_, fun _ => Nonce.increment_eq_none_iff_bytes, Nonce.compareLE_eq_compare,
    fun seed k => ?_⟩
  · rcases hb : a.increment with _ | b
    · have := Nonce.increment_eq_none_iff.1 hb
      omega
    · exact ⟨b, rfl, Nonce.increment_eq_some_iff.1 hb⟩
  · have hposition : ((new seed).after k).position = min (seed.toNatLE + k) Nonce.count :=
      position_after (new seed) k
    refine ⟨fun hlt => ?_, fun hle => draw_of_position_eq ?_, peek?_eq_iff_draw _⟩
    · rw [Nat.min_eq_left (Nat.le_of_lt hlt)] at hposition
      rw [← hposition] at hlt ⊢
      exact draw_of_position_lt hlt
    · rw [hposition, Nat.min_eq_right hle]

/-- Of the last two nonces both are drawn, and then none is, however often it is asked for one. -/
theorem counts_up_at_the_end :
    let seed : Nonce := .ofNatLE 24 (Nat.pow 2 192 - 2)
    (∃ next, seed.increment = some next ∧ next.toNatLE = seed.toNatLE + 1) ∧
    (∃ nonce, ((new seed).after 1).draw.1 = .ok nonce ∧ nonce.toNatLE = seed.toNatLE + 1) ∧
    ((new seed).after 2).draw.1 = .error .nonceExhausted ∧
    ((new seed).after 7).draw.1 = .error .nonceExhausted := by
  intro seed
  have hleft : seed.toNatLE < Nat.pow 2 192 - 1 := by decide +kernel
  have hlast : seed.toNatLE + 1 < Nat.pow 2 192 := by decide +kernel
  have hend : Nat.pow 2 192 ≤ seed.toNatLE + 2 := by decide +kernel
  have hbeyond : Nat.pow 2 192 ≤ seed.toNatLE + 7 := by decide +kernel
  obtain ⟨hincrement, -, -, hdraws⟩ := counts_up
  exact ⟨hincrement seed hleft, (hdraws seed 1).1 hlast, (hdraws seed 2).2.1 hend,
    (hdraws seed 7).2.1 hbeyond⟩

end Sequencer

end VaultLink
