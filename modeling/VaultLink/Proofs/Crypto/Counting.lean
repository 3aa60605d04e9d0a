import VaultLink.Crypto.Nonce

/-!
# Counting with nonces

A nonce read as a number below `2 ^ 192`: carrying adds one (`increment_eq_some_iff`), and only the
largest nonce has no successor (`increment_eq_none_iff`). A sequencer stands at a number too, its
`position`, which is `Nonce.count` once the largest nonce is gone: a draw gives the nonce of that
number and moves one place on (`draw_eq_ok`), and it fails only at the end (`draw_eq_error`).
-/

namespace VaultLink

namespace Nonce

/-- The number of nonces. -/
def count : Nat := Nat.pow 256 24

theorem toNatLE_incrementBytes {as bs : Bytes} (h : incrementBytes as = some bs) :
    bs.toNatLE = as.toNatLE + 1 := by
  induction as generalizing bs with
  | nil => cases h
  | cons a as ih =>
    unfold incrementBytes at h
    split at h
    · rename_i ha
      obtain ⟨cs, hcs, rfl⟩ := Option.map_eq_some_iff.1 h
      have := ih hcs
      simp only [Bytes.toNatLE, ha, UInt8.toNat_ofNat]
      omega
    · rename_i ha
      cases h
      have hlt := a.toNat_lt
      have hne : a.toNat ≠ 255 := fun e => ha (UInt8.toNat_inj.1 e)
      simp only [Bytes.toNatLE, UInt8.toNat_add, UInt8.toNat_ofNat]
      omega

/-- The carry runs past the last byte only if every byte is the largest one. -/
theorem toNatLE_of_incrementBytes_eq_none {as : Bytes} (h : incrementBytes as = none) :
    as.toNatLE + 1 = Nat.pow 256 as.length := by
  induction as with
  | nil => rfl
  | cons a as ih =>
    unfold incrementBytes at h
    split at h
    · rename_i ha
      have := ih (Option.map_eq_none_iff.1 h)
      show a.toNat + 256 * Bytes.toNatLE as + 1 = Nat.pow 256 as.length * 256
      have hlast : a.toNat = 255 := by rw [ha]; rfl
      omega
    · cases h

theorem toNatLE_of_increment {a b : Nonce} (h : a.increment = some b) :
    b.toNatLE = a.toNatLE + 1 := by
  unfold increment at h
  split at h
  · rename_i bytes hb
    cases h
    exact toNatLE_incrementBytes hb
  · cases h

/-- Only the largest nonce has no successor. -/
theorem increment_eq_none_iff {a : Nonce} : a.increment = none ↔ a.toNatLE + 1 = count := by
  constructor
  · intro h
    unfold increment at h
    split at h
    · cases h
    · rename_i hb
      have := toNatLE_of_incrementBytes_eq_none hb
      rwa [a.length_bytes] at this
  · intro h
    rcases hb : a.increment with _ | b
    · rfl
    · have hlt : b.toNatLE < count := b.toNatLE_lt
      have := toNatLE_of_increment hb
      omega

/-- Carrying adds one. -/
theorem increment_eq_some_iff {a b : Nonce} :
    a.increment = some b ↔ b.toNatLE = a.toNatLE + 1 := by
  refine ⟨toNatLE_of_increment, fun h => ?_⟩
  rcases hc : a.increment with _ | c
  · have hlt : b.toNatLE < count := b.toNatLE_lt
    have := increment_eq_none_iff.1 hc
    omega
  · rw [FixedBytes.toNatLE_inj ((toNatLE_of_increment hc).trans h.symm)]

end Nonce

namespace Sequencer

/-- The number of the nonce to hand out next, or the number of all nonces once none is left. -/
def position (s : Sequencer) : Nat :=
  match s.upcoming with
  | some nonce => nonce.toNatLE
  | none => Nonce.count

theorem position_le (s : Sequencer) : s.position ≤ Nonce.count := by
  unfold position
  split
  · exact Nat.le_of_lt (FixedBytes.toNatLE_lt _)
  · exact Nat.le_refl _

theorem position_increment (nonce : Nonce) (issued : Nat) :
    position ⟨nonce.increment, issued⟩ = nonce.toNatLE + 1 := by
  rcases h : nonce.increment with _ | next
  · exact (Nonce.increment_eq_none_iff.1 h).symm
  · exact Nonce.increment_eq_some_iff.1 h

/-- A draw hands out the nonce of the position and moves one place on. -/
theorem draw_eq_ok {s t : Sequencer} {nonce : Nonce} (h : s.draw = (.ok nonce, t)) :
    nonce.toNatLE = s.position ∧ t.position = s.position + 1 := by
  unfold draw at h
  split at h
  · cases h
  · rename_i n hn
    cases h
    have hp : s.position = nonce.toNatLE := by simp only [position, hn]
    exact ⟨hp.symm, by rw [position_increment, hp]⟩

/-- A draw fails only at the end, where it changes nothing. -/
theorem draw_eq_error {s t : Sequencer} {fault : CryptoFault} (h : s.draw = (.error fault, t)) :
    fault = .nonceExhausted ∧ t = s ∧ s.position = Nonce.count := by
  unfold draw at h
  split at h
  · rename_i hn
    cases h
    exact ⟨rfl, rfl, by simp only [position, hn]⟩
  · cases h

/-- A draw gives a nonce as long as one is left. -/
theorem exists_draw_eq_ok {s : Sequencer} (h : s.position < Nonce.count) :
    ∃ nonce t, s.draw = (.ok nonce, t) := by
  rcases hd : s.draw with ⟨fault | nonce, t⟩
  · have := (draw_eq_error hd).2.2
    omega
  · exact ⟨nonce, t, rfl⟩

end Sequencer

end VaultLink
