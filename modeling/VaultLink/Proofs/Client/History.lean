import VaultLink.Client.Basic
import VaultLink.Proofs.Crypto.Counting

/-!
# Histories of a connection

The journal of a connection is lawful if every message takes a new nonce and the one after it for its
reply, and if a box is accepted only under the nonce kept for it and only while the request that it
answers is the last message (`Lawful`). Such a history accepts no box twice, none that answers an
older request and none of the client's own messages (`Lawful.answers_last`, `Lawful.rising`).
-/

namespace VaultLink

/-- The message that a note says was written, or the reply that it says was accepted, by its nonce. -/
def Note.nonce? : Note → Option Nonce
  | .sent message => some message.nonce
  | .signal _ => none
  | .accepted reply _ => some reply.nonce

/-- A history that starts with the nonces from `p` on new, with the message `pending` unanswered, and
after which the nonces from `q` on are new. -/
inductive Lawful : (p : Nat) → (pending : Option Outbound) → List Note → (q : Nat) → Prop
  | idle {p q : Nat} {pending : Option Outbound} : p ≤ q → Lawful p pending [] q
  | signal {p q : Nat} {pending : Option Outbound} {notes : List Note} (s : Signal) :
    Lawful p pending notes q → Lawful p pending (.signal s :: notes) q
  | sent {p q : Nat} {pending : Option Outbound} {notes : List Note} {message : Outbound} :
    p ≤ message.nonce.toNatLE → Lawful (message.nonce.toNatLE + 2) (some message) notes q →
    Lawful p pending (.sent message :: notes) q
  | accepted {p q : Nat} {notes : List Note} {message : Outbound} {reply : BoxedReply}
    (body : Json.Members) : message.nonce.increment = some reply.nonce → Lawful p none notes q →
    Lawful p (some message) (.accepted reply body :: notes) q

namespace Lawful

variable {p q r : Nat} {pending : Option Outbound} {notes more : List Note}

/-- Later nonces are new as well, and what answers nothing does not mind an unanswered message. -/
theorem weaken (h : Lawful q none notes r) (hle : p ≤ q) : Lawful p pending notes r := by
  generalize hn : (none : Option Outbound) = idle at h
  induction h with
  | idle hr => exact .idle (Nat.le_trans hle hr)
  | signal s _ ih => exact .signal s (ih hle hn)
  | sent hm h => exact .sent (Nat.le_trans hle hm) h
  | accepted => cases hn

/-- A history that answers nothing of what was before it goes on from any other. -/
theorem append (h : Lawful p pending notes q) (h' : Lawful q none more r) :
    Lawful p pending (notes ++ more) r := by
  induction h with
  | idle hle => exact h'.weaken hle
  | signal s _ ih => exact .signal s (ih h')
  | sent hm _ ih => exact .sent hm (ih h')
  | accepted body hi _ ih => exact .accepted body hi (ih h')

theorem signals (signals : List Signal) (h : Lawful p pending notes q) :
    Lawful p pending (signals.map .signal ++ notes) q := by
  induction signals with
  | nil => exact h
  | cons s _ ih => exact .signal s ih

/-- Every nonce of a history is new, but for the one kept for the reply to the unanswered message. -/
theorem le_of_mem (h : Lawful p pending notes q) {n : Nonce} (hn : n ∈ notes.filterMap Note.nonce?) :
    p ≤ n.toNatLE ∨ ∃ message, pending = some message ∧ n.toNatLE = message.nonce.toNatLE + 1 := by
  induction h with
  | idle => cases hn
  | signal s _ ih => exact ih hn
  | sent hm _ ih =>
    rcases List.mem_cons.1 hn with rfl | hn
    · exact .inl hm
    · rcases ih hn with hle | ⟨message, hp, he⟩
      · exact .inl (by omega)
      · cases hp
        exact .inl (by omega)
  | accepted body hi _ ih =>
    rcases List.mem_cons.1 hn with rfl | hn
    · exact .inr ⟨_, rfl, Nonce.toNatLE_of_increment hi⟩
    · rcases ih hn with hle | ⟨message, hp, -⟩
      · exact .inl hle
      · cases hp

/-- The nonces of a history rise if those from `p` on come after what is kept for the reply to the
unanswered message. -/
theorem rising (h : Lawful p pending notes q)
    (hp : ∀ message, pending = some message → message.nonce.toNatLE + 2 ≤ p) :
    (notes.filterMap Note.nonce?).Pairwise fun a b => a.toNatLE < b.toNatLE := by
  induction h with
  | idle => exact .nil
  | signal s _ ih => exact ih hp
  | @sent p q pending notes message hm h ih =>
    refine List.pairwise_cons.2 ⟨fun n hn => ?_, ih fun message he => by cases he; exact Nat.le_refl _⟩
    rcases h.le_of_mem hn with hle | ⟨message', he, hs⟩
    · show message.nonce.toNatLE < n.toNatLE
      omega
    · cases he
      show message.nonce.toNatLE < n.toNatLE
      omega
  | @accepted p q notes message reply body hi h ih =>
    refine List.pairwise_cons.2 ⟨fun n hn => ?_, ih fun message he => by cases he⟩
    have hr := Nonce.toNatLE_of_increment hi
    have hm := hp message rfl
    rcases h.le_of_mem hn with hle | ⟨message', he, -⟩
    · omega
    · cases he

/-- A box is accepted only as the answer to the last message before it. -/
theorem answers_last (h : Lawful p pending notes q) {before after : List Note} {reply : BoxedReply}
    {body : Json.Members} (hn : notes = before ++ .accepted reply body :: after) :
    ∃ message, (before.filterMap Note.sent?).getLast?.or pending = some message ∧
      message.nonce.increment = some reply.nonce := by
  induction h generalizing before with
  | idle => exact absurd hn (by simp)
  | signal s _ ih =>
    cases before with
    | nil => cases hn
    | cons note before =>
      cases hn
      obtain ⟨message, hl, hi⟩ := ih rfl
      exact ⟨message, hl, hi⟩
  | sent hm _ ih =>
    cases before with
    | nil => cases hn
    | cons note before =>
      cases hn
      obtain ⟨message, hl, hi⟩ := ih rfl
      refine ⟨message, ?_, hi⟩
      rw [List.filterMap_cons_some (show Note.sent? (.sent _) = some _ from rfl), List.getLast?_cons]
      rw [← hl]
      cases (before.filterMap Note.sent?).getLast? <;> rfl
  | accepted body hi _ ih =>
    cases before with
    | nil =>
      cases hn
      exact ⟨_, rfl, hi⟩
    | cons note before =>
      cases hn
      obtain ⟨message, hl, hi⟩ := ih rfl
      rw [Option.or_none] at hl
      exact ⟨message, by
        rw [List.filterMap_cons_none (show Note.sent? (.accepted _ _) = none from rfl), hl]
        rfl, hi⟩

/-- Nothing else in a history has the nonce of a box that was accepted. -/
theorem nonce_ne (h : Lawful p none notes q) {before after : List Note} {reply : BoxedReply}
    {body : Json.Members} (hn : notes = before ++ .accepted reply body :: after) :
    ∀ note ∈ before ++ after, note.nonce? ≠ some reply.nonce := by
  have hrise := h.rising fun _ he => by cases he
  rw [hn, List.filterMap_append, List.filterMap_cons_some (show Note.nonce? _ = some _ from rfl)]
    at hrise
  obtain ⟨-, hafter, hbefore⟩ := List.pairwise_append.1 hrise
  intro note hmem he
  rcases List.mem_append.1 hmem with hm | hm
  · have hlt := hbefore _ (List.mem_filterMap.2 ⟨note, hm, he⟩) _ List.mem_cons_self
    exact Nat.lt_irrefl _ hlt
  · have hlt := (List.pairwise_cons.1 hafter).1 _ (List.mem_filterMap.2 ⟨note, hm, he⟩)
    exact Nat.lt_irrefl _ hlt

end Lawful

end VaultLink
