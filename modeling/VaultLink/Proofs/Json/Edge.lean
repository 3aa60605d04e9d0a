import VaultLink.Json.Scan

/-!
# Where bytes of JSON text break off

What can be told of the end of some bytes of JSON text without following its structure (`Edge`): that
it stands inside a string, after a digit, or after something that a digit must follow. The scanner
stands where the bytes say (`edge_of_advance`). At the end of a text that breaks off inside a container
it asks for more bytes, but for a number that lacks a digit (`finish_of_wanting`,
`finish_of_ne_wanting`).
-/

namespace VaultLink.Json

/-- Where some bytes of JSON text break off. -/
inductive Edge where
  /-- Outside of strings, neither after a digit nor where one is wanting. -/
  | plain
  /-- Outside of strings, after a digit. -/
  | digit
  /-- In a number that lacks a digit: after its minus sign, its point, or the letter or the sign of its
  exponent. -/
  | wanting
  /-- Inside a string. -/
  | text
  /-- After a backslash. -/
  | escape
  /-- Inside the four digits of an escape, of which so many have come. -/
  | digits (seen : Nat)
  deriving DecidableEq, Repr

namespace Edge

/-- What one byte does to the edge. -/
def next (edge : Edge) (b : UInt8) : Edge :=
  match edge with
  | text => if b = 0x22 then plain else if b = 0x5C then escape else text
  | escape => if b = 0x75 then digits 0 else text
  | digits seen => if seen < 3 then digits (seen + 1) else text
  | _ =>
    if b = 0x22 then text
    else if isDigit b then digit
    else if b = 0x2D || b = 0x2B || b = 0x2E then wanting
    else if edge = digit && (b = 0x65 || b = 0x45) then wanting
    else plain

/-- The edge after some more bytes. -/
def after (edge : Edge) (bs : Bytes) : Edge := bs.foldl next edge

/-- The edge of some bytes, which start outside of strings. -/
def ofBytes (bs : Bytes) : Edge := plain.after bs

theorem after_append (edge : Edge) (as bs : Bytes) :
    edge.after (as ++ bs) = (edge.after as).after bs := List.foldl_append

@[simp] theorem after_cons (edge : Edge) (b : UInt8) (bs : Bytes) :
    edge.after (b :: bs) = (edge.next b).after bs := rfl

end Edge

namespace Scan

/-- The edge at which a scan stands. -/
def Place.edge : Place → Edge
  | .zero | .whole | .fraction | .exponent => .digit
  | .minus | .point | .exponentMark | .exponentSign => .wanting
  | .text _ => .text
  | .escape _ => .escape
  | .digits _ seen => .digits seen.length
  | _ => .plain

/-- What the bytes at hand are in a scan: what is left of a word are its letters, and of the digits of
an escape some are still to come. -/
def Place.Sound : Place → Prop
  | .word rest => rest ≠ [] ∧ ∀ w ∈ rest, w ∈ [0x75, 0x6C, 0x72, 0x65, 0x61, 0x73]
  | .digits _ seen => seen.length < 4
  | _ => True

/-- A step leaves a scan at an edge, if it goes on; a value that ends leaves it outside of everything. -/
def Step.Leaves (edge : Edge) : Step → Prop
  | .more state => state.place.Sound ∧ state.place.edge = edge
  | .done => edge = .plain
  | .ended | .fault _ => True

variable {edge : Edge} {within : List Container}

theorem complete_leaves (within : List Container) : (complete within).Leaves .plain := by
  cases within with
  | nil => rfl
  | cons => exact ⟨trivial, rfl⟩

theorem next_closer (h : edge = .plain ∨ edge = .digit) (container : Container) :
    edge.next container.closer = .plain := by
  cases container <;> rcases h with rfl | rfl <;> rfl

theorem next_of_isSpace (h : edge = .plain ∨ edge = .digit) {b : UInt8} (hb : isSpace b = true) :
    edge.next b = .plain := by
  simp only [isSpace, Bool.or_eq_true, decide_eq_true_eq] at hb
  rcases h with rfl | rfl <;> rcases hb with ((rfl | rfl) | rfl) | rfl <;> rfl

theorem next_of_isDigit (h : edge = .plain ∨ edge = .digit ∨ edge = .wanting) {b : UInt8}
    (hb : isDigit b = true) : edge.next b = .digit := by
  have : b ≠ 0x22 := by rintro rfl; exact absurd hb (by decide)
  rcases h with rfl | rfl | rfl <;> simp [Edge.next, this, hb]

theorem startValue_leaves (within : List Container) (b : UInt8) :
    (startValue within b).Leaves (Edge.plain.next b) := by
  unfold startValue
  refine iteInduction (fun hb => ⟨trivial, (next_of_isSpace (.inl rfl) hb).symm⟩) fun _ => ?_
  -- a string, a container, and a number that starts with a minus sign or with zero
  iterate 5
    refine iteInduction (fun hb => ?_) fun _ => ?_
    · subst hb
      exact ⟨trivial, rfl⟩
  refine iteInduction (fun hb => ⟨trivial, (next_of_isDigit (.inl rfl) hb).symm⟩) fun _ => ?_
  -- a word
  iterate 3
    refine iteInduction (fun hb => ?_) fun _ => ?_
    · subst hb
      exact ⟨⟨List.cons_ne_nil _ _, by simp⟩, rfl⟩
  trivial

theorem startName_leaves (within : List Container) (b : UInt8) :
    (startName within b).Leaves (Edge.plain.next b) := by
  unfold startName
  refine iteInduction (fun hb => ⟨trivial, (next_of_isSpace (.inl rfl) hb).symm⟩) fun _ => ?_
  refine iteInduction (fun hb => ?_) fun _ => trivial
  subst hb
  exact ⟨trivial, rfl⟩

theorem afterOpening_leaves (within : List Container) (b : UInt8) :
    (afterOpening within b).Leaves (Edge.plain.next b) := by
  unfold afterOpening
  split
  · trivial
  · rename_i container outer
    split
    · rename_i hb
      exact ⟨trivial, (next_of_isSpace (.inl rfl) hb).symm⟩
    · split
      · rename_i hb
        rw [hb, next_closer (.inl rfl)]
        exact complete_leaves outer
      · cases container
        · exact startValue_leaves _ b
        · exact startName_leaves _ b

theorem afterValue_leaves (h : edge = .plain ∨ edge = .digit) (within : List Container) (b : UInt8) :
    (afterValue within b).Leaves (edge.next b) := by
  unfold afterValue
  split
  · trivial
  · rename_i container outer
    split
    · rename_i hb
      exact ⟨trivial, (next_of_isSpace h hb).symm⟩
    · split
      · rename_i hb
        subst hb
        rcases h with rfl | rfl <;> cases container <;> exact ⟨trivial, rfl⟩
      · split
        · rename_i hb
          rw [hb, next_closer h]
          exact complete_leaves outer
        · trivial

theorem needDigit_leaves (place : Place) (hs : place.Sound) (he : place.edge = .digit) (b : UInt8) :
    (needDigit within place b).Leaves (Edge.wanting.next b) := by
  unfold needDigit
  split
  · rename_i hb
    exact ⟨hs, he.trans (next_of_isDigit (.inr (.inr rfl)) hb).symm⟩
  · trivial

theorem afterWhole_leaves (within : List Container) (b : UInt8) :
    (afterWhole within b).Leaves (Edge.digit.next b) := by
  unfold afterWhole
  split
  · rename_i hb
    subst hb
    exact ⟨trivial, rfl⟩
  · split
    · rename_i hb
      simp only [Bool.or_eq_true, decide_eq_true_eq] at hb
      rcases hb with rfl | rfl <;> exact ⟨trivial, rfl⟩
    · exact afterValue_leaves (.inr rfl) within b

theorem closeText_leaves (within : List Container) (isName : Bool) :
    (closeText within isName).Leaves .plain := by
  cases isName
  · exact complete_leaves within
  · exact ⟨trivial, rfl⟩

/-- A letter of a word is no part of a number where the word stands. -/
theorem next_letter {w : UInt8} (h : w ∈ [0x75, 0x6C, 0x72, 0x65, 0x61, 0x73]) :
    Edge.plain.next w = .plain := by
  simp only [List.mem_cons, List.not_mem_nil, or_false] at h
  rcases h with rfl | rfl | rfl | rfl | rfl | rfl <;> rfl

/-- Every byte moves a scan from edge to edge. -/
theorem step_leaves {state : State} (hs : state.place.Sound) (b : UInt8) :
    (step state b).Leaves (state.place.edge.next b) := by
  obtain ⟨within, place⟩ := state
  cases place with
  | value => exact startValue_leaves within b
  | opened => exact afterOpening_leaves within b
  | name => exact startName_leaves within b
  | settled => exact afterValue_leaves (.inl rfl) within b
  | point => exact needDigit_leaves .fraction trivial rfl b
  | exponentSign => exact needDigit_leaves .exponent trivial rfl b
  | colon =>
    simp only [step]
    split
    · rename_i hb
      exact ⟨trivial, (next_of_isSpace (.inl rfl) hb).symm⟩
    · split
      · rename_i hb
        subst hb
        exact ⟨trivial, rfl⟩
      · trivial
  | word rest =>
    obtain ⟨hne, hl⟩ := hs
    cases rest with
    | nil => exact absurd rfl hne
    | cons w rest =>
      have hw : Edge.plain.next w = .plain := next_letter (hl w List.mem_cons_self)
      cases rest with
      | nil =>
        simp only [step]
        split
        · rename_i hb
          rw [hb]
          exact (congrArg (Step.Leaves · _) hw).mpr (complete_leaves within)
        · trivial
      | cons w' rest =>
        simp only [step]
        split
        · rename_i hb
          rw [hb]
          exact ⟨⟨List.cons_ne_nil _ _, fun x hx => hl x (List.mem_cons_of_mem _ hx)⟩, hw.symm⟩
        · trivial
  | minus =>
    simp only [step]
    split
    · rename_i hb
      subst hb
      exact ⟨trivial, rfl⟩
    · exact needDigit_leaves .whole trivial rfl b
  | zero =>
    simp only [step]
    split
    · trivial
    · exact afterWhole_leaves within b
  | whole =>
    simp only [step]
    split
    · rename_i hb
      exact ⟨trivial, (next_of_isDigit (.inr (.inl rfl)) hb).symm⟩
    · exact afterWhole_leaves within b
  | fraction =>
    simp only [step]
    split
    · rename_i hb
      exact ⟨trivial, (next_of_isDigit (.inr (.inl rfl)) hb).symm⟩
    · split
      · rename_i hb
        simp only [Bool.or_eq_true, decide_eq_true_eq] at hb
        rcases hb with rfl | rfl <;> exact ⟨trivial, rfl⟩
      · exact afterValue_leaves (.inr rfl) within b
  | exponentMark =>
    simp only [step]
    split
    · rename_i hb
      simp only [Bool.or_eq_true, decide_eq_true_eq] at hb
      rcases hb with rfl | rfl <;> exact ⟨trivial, rfl⟩
    · exact needDigit_leaves .exponent trivial rfl b
  | exponent =>
    simp only [step]
    split
    · rename_i hb
      exact ⟨trivial, (next_of_isDigit (.inr (.inl rfl)) hb).symm⟩
    · exact afterValue_leaves (.inr rfl) within b
  | text isName =>
    simp only [step, Place.edge, Edge.next]
    split
    · exact closeText_leaves within isName
    · split
      · exact ⟨trivial, rfl⟩
      · split
        · trivial
        · exact ⟨trivial, rfl⟩
  | escape isName =>
    simp only [step, Place.edge, Edge.next]
    split
    · exact ⟨Nat.zero_lt_succ _, rfl⟩
    · split
      · exact ⟨trivial, rfl⟩
      · trivial
  | digits isName seen =>
    -- The scanner looks at the digits when the fourth has come.
    match seen, hs with
    | [], _ | [_], _ | [_, _], _ => exact ⟨by simp [Place.Sound], rfl⟩
    | [c, b', a], _ =>
      simp only [step]
      split
      · exact ⟨trivial, rfl⟩
      · trivial

/-- Where a scan of bytes from the start of a value stands, by the bytes alone. -/
theorem edge_of_advance {state state' : State} {bs : Bytes} (hs : state.place.Sound)
    (h : advance state bs = .running state') :
    state'.place.Sound ∧ state'.place.edge = state.place.edge.after bs := by
  induction bs generalizing state with
  | nil => cases h; exact ⟨hs, rfl⟩
  | cons b bs ih =>
    have hl := step_leaves hs b
    unfold advance at h
    cases hstep : step state b with
    | more next =>
      rw [hstep] at h hl
      obtain ⟨hsound, hedge⟩ := hl
      obtain ⟨h₁, h₂⟩ := ih hsound h
      exact ⟨h₁, h₂.trans (by rw [hedge]; rfl)⟩
    | done | ended | fault => rw [hstep] at h; cases h

/-- A value that shows its own end breaks off outside of everything. -/
theorem after_of_advance_eq_complete {state : State} {bs : Bytes} (hs : state.place.Sound)
    (h : advance state bs = .complete []) : state.place.edge.after bs = .plain := by
  induction bs generalizing state with
  | nil => cases h
  | cons b bs ih =>
    have hl := step_leaves hs b
    unfold advance at h
    cases hstep : step state b with
    | more next =>
      rw [hstep] at h hl
      rw [Edge.after_cons, ← hl.2]
      exact ih hl.1 h
    | done =>
      rw [hstep] at h hl
      cases h
      exact hl
    | ended | fault => rw [hstep] at h; cases h

/-! ## Inside a container -/

/-- A step that goes on stands inside a container. -/
def Step.Inside : Step → Prop
  | .more state => state.within ≠ []
  | _ => True

theorem complete_inside (within : List Container) : (complete within).Inside := by
  cases within with
  | nil => trivial
  | cons => exact List.cons_ne_nil _ _

section Inside

variable (hw : within ≠ []) (b : UInt8)

include hw

theorem startValue_inside : (startValue within b).Inside := by
  unfold startValue
  iterate 2 refine iteInduction (fun _ => hw) fun _ => ?_
  iterate 2 refine iteInduction (fun _ => List.cons_ne_nil _ _) fun _ => ?_
  iterate 6 refine iteInduction (fun _ => hw) fun _ => ?_
  trivial

theorem startName_inside : (startName within b).Inside := by
  unfold startName
  iterate 2 refine iteInduction (fun _ => hw) fun _ => ?_
  trivial

theorem afterOpening_inside : (afterOpening within b).Inside := by
  unfold afterOpening
  split
  · trivial
  · rename_i container outer
    refine iteInduction (fun _ => hw) fun _ => ?_
    refine iteInduction (fun _ => complete_inside outer) fun _ => ?_
    cases container
    · exact startValue_inside hw b
    · exact startName_inside hw b

theorem afterValue_inside : (afterValue within b).Inside := by
  unfold afterValue
  split
  · trivial
  · rename_i container outer
    refine iteInduction (fun _ => hw) fun _ => ?_
    refine iteInduction (fun _ => ?_) fun _ => ?_
    · cases container <;> exact hw
    · exact iteInduction (fun _ => complete_inside outer) fun _ => trivial

theorem needDigit_inside (place : Place) : (needDigit within place b).Inside :=
  iteInduction (fun _ => hw) fun _ => trivial

theorem afterWhole_inside : (afterWhole within b).Inside := by
  unfold afterWhole
  iterate 2 refine iteInduction (fun _ => hw) fun _ => ?_
  exact afterValue_inside hw b

theorem closeText_inside (isName : Bool) : (closeText within isName).Inside :=
  iteInduction (fun _ => hw) fun _ => complete_inside within

end Inside

/-- A scan that goes on inside a container stays inside one. -/
theorem step_inside {state : State} (hw : state.within ≠ []) (b : UInt8) :
    (step state b).Inside := by
  obtain ⟨within, place⟩ := state
  cases place with
  | value => exact startValue_inside hw b
  | opened => exact afterOpening_inside hw b
  | name => exact startName_inside hw b
  | settled => exact afterValue_inside hw b
  | point | exponentSign => exact needDigit_inside hw b _
  | colon => exact iteInduction (fun _ => hw) fun _ => iteInduction (fun _ => hw) fun _ => trivial
  | word rest =>
    match rest with
    | [] => exact afterValue_inside hw b
    | [w] => exact iteInduction (fun _ => complete_inside within) fun _ => trivial
    | w :: w' :: rest => exact iteInduction (fun _ => hw) fun _ => trivial
  | minus => exact iteInduction (fun _ => hw) fun _ => needDigit_inside hw b _
  | zero => exact iteInduction (fun _ => trivial) fun _ => afterWhole_inside hw b
  | whole => exact iteInduction (fun _ => hw) fun _ => afterWhole_inside hw b
  | fraction =>
    exact iteInduction (fun _ => hw) fun _ =>
      iteInduction (fun _ => hw) fun _ => afterValue_inside hw b
  | exponentMark => exact iteInduction (fun _ => hw) fun _ => needDigit_inside hw b _
  | exponent => exact iteInduction (fun _ => hw) fun _ => afterValue_inside hw b
  | text isName =>
    refine iteInduction (fun _ => closeText_inside hw isName) fun _ => ?_
    exact iteInduction (fun _ => hw) fun _ => iteInduction (fun _ => trivial) fun _ => hw
  | escape isName =>
    exact iteInduction (fun _ => hw) fun _ => iteInduction (fun _ => hw) fun _ => trivial
  | digits isName seen =>
    match seen with
    | [] | [_] | [_, _] | _ :: _ :: _ :: _ :: _ => exact hw
    | [c, b', a] => exact iteInduction (fun _ => hw) fun _ => trivial

theorem within_of_advance {state state' : State} {bs : Bytes} (hw : state.within ≠ [])
    (h : advance state bs = .running state') : state'.within ≠ [] := by
  induction bs generalizing state with
  | nil => cases h; exact hw
  | cons b bs ih =>
    have hinside := step_inside hw b
    unfold advance at h
    cases hstep : step state b with
    | more next =>
      rw [hstep] at h hinside
      exact ih hinside h
    | done | ended | fault => rw [hstep] at h; cases h

/-- A text that ends in a number that lacks a digit is taken for a wrong one. -/
theorem finish_of_wanting {state : State} (h : state.place.edge = .wanting) :
    state.finish = .error .badNumber := by
  obtain ⟨within, place⟩ := state
  cases place with
  | minus | point | exponentMark | exponentSign => rfl
  | _ => cases h

/-- Every other text that ends inside a container is only taken to end too early. -/
theorem finish_of_ne_wanting {state : State} (hw : state.within ≠ []) (hs : state.place.Sound)
    (h : state.place.edge ≠ .wanting) :
    ∃ fault, state.finish = .error fault ∧ fault.isTruncation = true := by
  obtain ⟨within, place⟩ := state
  obtain ⟨container, outer, rfl⟩ := List.exists_cons_of_ne_nil hw
  cases place with
  | minus | point | exponentMark | exponentSign => exact absurd rfl h
  | opened | settled | zero | whole | fraction | exponent =>
    exact ⟨container.endFault, rfl, by cases container <;> rfl⟩
  | word rest =>
    obtain ⟨w, rest, rfl⟩ := List.exists_cons_of_ne_nil hs.1
    exact ⟨_, rfl, rfl⟩
  | value | name | colon | text | escape | digits => exact ⟨_, rfl, rfl⟩

end Scan

end VaultLink.Json
