import VaultLink.Proofs.Json.Following

/-!
# What the scanner accepts

The scanner passes over nothing but what the rules of JSON text derive. From every place inside a value
the bytes up to its end are what the rules still demand there (`body_of_resume`, `numeral_of_resume`,
`word_of_resume`, `items_of_resume`, `members_of_resume`), so the bytes that `skip` takes off a text are
blanks and one whole value (`derives_of_skip`), which neither starts nor ends with a blank
(`Derives.isSpace_ends`).
-/

namespace VaultLink.Json

namespace Grammar

/-! ## The ends of a value -/

/-- No blank stands inside a number. -/
theorem Numeral.isSpace_eq_false {bs : Bytes} (h : Numeral bs) : ∀ b ∈ bs, isSpace b = false := by
  obtain ⟨hm, hw, hf, he⟩ := h
  intro b hb
  simp only [List.mem_append] at hb
  rcases hb with hb | hb | hb | hb
  · rcases hm with rfl | rfl
    · cases hb
    · exact (List.mem_singleton.1 hb) ▸ rfl
  · cases hw with
    | zero => exact (List.mem_singleton.1 hb) ▸ rfl
    | digits hd _ hds =>
      rcases List.mem_cons.1 hb with rfl | hb
      · exact isSpace_of_isDigit hd
      · exact isSpace_of_isDigit (hds b hb)
  · cases hf with
    | absent => cases hb
    | present hd hds =>
      simp only [List.mem_cons] at hb
      rcases hb with rfl | rfl | hb
      · rfl
      · exact isSpace_of_isDigit hd
      · exact isSpace_of_isDigit (hds b hb)
  · cases he with
    | absent => cases hb
    | present hmark hsign hd hds =>
      simp only [List.mem_cons, List.mem_append] at hb
      rcases hb with rfl | hb | rfl | hb
      · rcases hmark with rfl | rfl <;> rfl
      · rcases hsign with rfl | rfl | rfl
        · cases hb
        · exact (List.mem_singleton.1 hb) ▸ rfl
        · exact (List.mem_singleton.1 hb) ▸ rfl
      · exact isSpace_of_isDigit hd
      · exact isSpace_of_isDigit (hds b hb)

/-- A value neither starts nor ends with a blank. -/
theorem Derives.isSpace_ends {bs : Bytes} (h : Derives .value bs) :
    (∀ b ∈ bs.head?, isSpace b = false) ∧ ∀ b ∈ bs.getLast?, isSpace b = false := by
  refine ⟨fun b hb => ?_, fun b hb => ?_⟩
  · obtain ⟨c, rest, rfl, hs, -⟩ := h.exists_head
    cases hb
    exact hs
  · cases h with
    | word h =>
      simp only [words, List.mem_cons, List.not_mem_nil, or_false] at h
      rcases h with rfl | rfl | rfl <;> cases hb <;> rfl
    | number h => exact h.isSpace_eq_false b (List.mem_of_getLast? hb)
    | string | emptyList | list | emptyObject | object =>
      rw [← List.cons_append, List.getLast?_concat] at hb
      cases hb
      rfl

end Grammar

namespace Scan

open Grammar

variable {within outer : List Container} {place : Place} {state state' : State} {b : UInt8}
  {bs rest : Bytes}

/-! ## A scan that is under way -/

/-- The bytes after the value that a scan is in the middle of. -/
def resume (state : State) (bs : Bytes) : Except Fault Bytes :=
  match advance state bs with
  | .running state => do
    state.finish
    return []
  | .complete rest => .ok rest
  | .failed fault => .error fault

theorem skip_eq_resume (bs : Bytes) : skip bs = resume start bs := rfl

theorem resume_cons (state : State) (b : UInt8) (bs : Bytes) :
    resume state (b :: bs) = match step state b with
      | .more next => resume next bs
      | .done => .ok bs
      | .ended => .ok (b :: bs)
      | .fault fault => .error fault := by
  simp only [resume, advance]
  cases step state b <;> rfl

theorem resume_of_more (state' : State) (h : step state b = .more state') (bs : Bytes) :
    resume state (b :: bs) = resume state' bs := by
  rw [resume_cons, h]

theorem step_ne_fault (h : resume state (b :: bs) = .ok rest) (fault : Fault) :
    step state b ≠ .fault fault := by
  intro hf
  rw [resume_cons, hf] at h
  cases h

/-- After a value that stands alone, everything is left. -/
theorem resume_settled (bs : Bytes) : resume ⟨[], .settled⟩ bs = .ok bs := by
  cases bs <;> rfl

/-- The byte that ends a value leaves the scan behind the value. -/
theorem resume_of_complete (within : List Container) (h : step state b = complete within) (bs : Bytes) :
    resume state (b :: bs) = resume ⟨within, .settled⟩ bs := by
  rw [resume_cons, h]
  cases within with
  | nil => exact (resume_settled bs).symm
  | cons => rfl

/-- Places that take the next byte alike, and the end of the text. -/
theorem resume_congr (hf : state.finish = state'.finish)
    (h : ∀ b ∈ bs.head?, step state b = step state' b) : resume state bs = resume state' bs := by
  cases bs with
  | nil => simp only [resume, advance, hf]
  | cons b bs => rw [resume_cons, resume_cons, h b rfl]

/-- Bytes of a kind that leaves the scan where it is are passed over. -/
theorem exists_stop (p : UInt8 → Bool) (state : State)
    (hp : ∀ b, p b = true → step state b = .more state) (bs : Bytes) :
    ∃ taken tail, bs = taken ++ tail ∧ (∀ b ∈ taken, p b = true) ∧ (∀ b ∈ tail.head?, p b = false) ∧
      resume state bs = resume state tail := by
  induction bs with
  | nil => exact ⟨[], [], rfl, List.forall_mem_nil _, nofun, rfl⟩
  | cons b bs ih =>
    rcases hb : p b with _ | _
    · exact ⟨[], b :: bs, rfl, List.forall_mem_nil _, fun c hc => by cases hc; exact hb, rfl⟩
    · obtain ⟨taken, tail, rfl, ht, hs, hr⟩ := ih
      exact ⟨b :: taken, tail, rfl, List.forall_mem_cons.2 ⟨hb, ht⟩, hs,
        (resume_of_more state (hp b hb) _).trans hr⟩

/-! ## Strings -/

/-- The four digits of an escape come next. -/
theorem digits_of_resume {isName : Bool} (h : resume ⟨within, .digits isName []⟩ bs = .ok rest) :
    ∃ a b c d more, bs = a :: b :: c :: d :: more ∧ (hexFour? a b c d).isSome = true ∧
      resume ⟨within, .text isName⟩ more = .ok rest := by
  match bs, h with
  | [], h | [_], h | [_, _], h | [_, _, _], h => cases h
  | a :: b :: c :: d :: more, h =>
    rw [resume_of_more ⟨within, .digits isName [a]⟩ rfl,
      resume_of_more ⟨within, .digits isName [b, a]⟩ rfl,
      resume_of_more ⟨within, .digits isName [c, b, a]⟩ rfl] at h
    have hne := step_ne_fault h .badEscape
    simp only [step, ne_eq, ite_eq_right_iff, reduceCtorEq, imp_false, Decidable.not_not] at hne
    rw [resume_of_more ⟨within, .text isName⟩ (by simp only [step, hne, if_true])] at h
    exact ⟨a, b, c, d, more, rfl, hne, h⟩

/-- An escape goes on to its last byte. -/
theorem escape_of_resume {isName : Bool} (h : resume ⟨within, .escape isName⟩ bs = .ok rest) :
    ∃ escape more, bs = escape ++ more ∧ (∀ body, Body body → Body (0x5C :: (escape ++ body))) ∧
      resume ⟨within, .text isName⟩ more = .ok rest := by
  cases bs with
  | nil => cases h
  | cons e bs =>
    by_cases hunit : e = 0x75
    · subst hunit
      rw [resume_of_more ⟨within, .digits isName []⟩ rfl] at h
      obtain ⟨a, b, c, d, more, rfl, hhex, h⟩ := digits_of_resume h
      obtain ⟨n, hn⟩ := Option.isSome_iff_exists.1 hhex
      obtain ⟨ha, hb, hc, hd⟩ := isSome_of_hexFour? hn
      exact ⟨[0x75, a, b, c, d], more, rfl, fun body hbody => .unit ha hb hc hd hbody, h⟩
    · have hne := step_ne_fault h .badEscape
      simp only [step, hunit, if_false, ne_eq, ite_eq_right_iff, reduceCtorEq, imp_false,
        Decidable.not_not] at hne
      rw [resume_of_more ⟨within, .text isName⟩
        (by simp only [step, hunit, if_false, hne, if_true])] at h
      obtain ⟨escaped, he⟩ := Option.isSome_iff_exists.1 hne
      exact ⟨[e], bs, rfl, fun body hbody => .letter (mem_of_simpleEscape? he) hbody, h⟩

/-- What comes after a string. -/
def afterText (isName : Bool) : Place := if isName then .colon else .settled

/-- A string goes on to its closing quote. -/
theorem body_of_resume {isName : Bool} (h : resume ⟨within, .text isName⟩ bs = .ok rest) :
    ∃ body tail, bs = body ++ 0x22 :: tail ∧ Body body ∧
      resume ⟨within, afterText isName⟩ tail = .ok rest := by
  induction hn : bs.length using Nat.strongRecOn generalizing bs with
  | _ n ih =>
    subst hn
    cases bs with
    | nil => cases h
    | cons b bs =>
      by_cases hquote : b = 0x22
      · subst hquote
        refine ⟨[], bs, rfl, .nil, ?_⟩
        cases isName with
        | true => exact h
        | false => exact (resume_of_complete within rfl bs).symm.trans h
      by_cases hescape : b = 0x5C
      · subst hescape
        rw [resume_of_more ⟨within, .escape isName⟩ rfl] at h
        obtain ⟨escape, more, rfl, hbodies, h⟩ := escape_of_resume h
        obtain ⟨body, tail, rfl, hbody, h⟩ :=
          ih _ (by simp only [List.length_cons, List.length_append]; omega) h rfl
        exact ⟨_, tail, by simp, hbodies body hbody, h⟩
      · have hne := step_ne_fault h .controlCharacter
        simp only [step, hquote, hescape, if_false, ne_eq, ite_eq_left_iff, reduceCtorEq, imp_false,
          Decidable.not_not] at hne
        have hcontrol : ¬ b < 0x20 := by simpa using hne
        rw [resume_of_more ⟨within, .text isName⟩
          (by simp only [step, hquote, hescape, hcontrol, if_false])] at h
        obtain ⟨body, tail, rfl, hbody, h⟩ := ih _ (by simp only [List.length_cons]; omega) h rfl
        exact ⟨_, tail, rfl, .plain (UInt8.not_lt.1 hcontrol) hquote hescape hbody, h⟩

/-! ## Numbers -/

/-- Digits that have no end of their own go on to what follows them. -/
theorem exists_digits (within : List Container)
    (hp : place = .whole ∨ place = .fraction ∨ place = .exponent) (bs : Bytes) :
    ∃ ds tail, bs = ds ++ tail ∧ Digits ds ∧ (∀ b ∈ tail.head?, isDigit b = false) ∧
      resume ⟨within, place⟩ bs = resume ⟨within, place⟩ tail := by
  refine exists_stop isDigit _ (fun b hb => ?_) bs
  rcases hp with rfl | rfl | rfl <;> simp only [step, hb, if_true]

/-- A digit must come next. -/
theorem exists_digit {next : Place} (hp : ∀ b, step ⟨within, place⟩ b = needDigit within next b)
    (hf : State.finish ⟨within, place⟩ = .error .badNumber)
    (h : resume ⟨within, place⟩ bs = .ok rest) :
    ∃ d more, bs = d :: more ∧ isDigit d = true ∧ resume ⟨within, next⟩ more = .ok rest := by
  cases bs with
  | nil =>
    simp only [resume, advance, hf] at h
    cases h
  | cons d more =>
    have hd : isDigit d = true := by
      have hne := step_ne_fault h .badNumber
      rw [hp] at hne
      simpa only [needDigit, ne_eq, ite_eq_right_iff, reduceCtorEq, imp_false,
        Decidable.not_not] using hne
    rw [resume_of_more ⟨within, next⟩ (by rw [hp, needDigit, if_pos hd])] at h
    exact ⟨d, more, rfl, hd, h⟩

/-- The digits of an exponent end a number. -/
theorem exponentDigits_of_resume (h : resume ⟨within, .exponent⟩ bs = .ok rest) :
    ∃ ds tail, bs = ds ++ tail ∧ Digits ds ∧ resume ⟨within, .settled⟩ tail = .ok rest := by
  obtain ⟨ds, tail, rfl, hds, hstop, hr⟩ := exists_digits within (.inr (.inr rfl)) bs
  refine ⟨ds, tail, rfl, hds, ?_⟩
  rw [← h, hr]
  refine resume_congr (by cases within <;> rfl) fun b hb => ?_
  simp only [step, hstop b hb, Bool.false_eq_true, if_false]

/-- After the mark of an exponent comes a sign, or none, and a digit. -/
theorem sign_of_resume (h : resume ⟨within, .exponentMark⟩ bs = .ok rest) :
    ∃ sign d more, bs = sign ++ d :: more ∧ (sign = [] ∨ sign = [0x2B] ∨ sign = [0x2D]) ∧
      isDigit d = true ∧ resume ⟨within, .exponent⟩ more = .ok rest := by
  cases bs with
  | nil => cases h
  | cons s bs =>
    by_cases hs : s = 0x2B ∨ s = 0x2D
    · rw [resume_of_more ⟨within, .exponentSign⟩ (by rcases hs with rfl | rfl <;> rfl)] at h
      obtain ⟨d, more, rfl, hdigit, h⟩ := exists_digit (fun _ => rfl) rfl h
      refine ⟨[s], d, more, rfl, ?_, hdigit, h⟩
      rcases hs with rfl | rfl <;> simp
    · have hstep : step ⟨within, .exponentMark⟩ s = step ⟨within, .exponentSign⟩ s := by
        simp only [step, Bool.or_eq_true, decide_eq_true_eq, hs, if_false]
      have hsame : resume ⟨within, .exponentMark⟩ (s :: bs) =
          resume ⟨within, .exponentSign⟩ (s :: bs) :=
        resume_congr rfl fun b hb => by cases hb; exact hstep
      rw [hsame] at h
      obtain ⟨d, more, he, hdigit, h⟩ := exists_digit (fun _ => rfl) rfl h
      exact ⟨[], d, more, he, .inl rfl, hdigit, h⟩

/-- An exponent may come next. -/
theorem exponent_of_resume (hd : ∀ b ∈ bs.head?, isDigit b = false)
    (h : resume ⟨within, .fraction⟩ bs = .ok rest) :
    ∃ exponent tail, bs = exponent ++ tail ∧ Exponent exponent ∧
      resume ⟨within, .settled⟩ tail = .ok rest := by
  by_cases hmark : ∃ b ∈ bs.head?, b = 0x65 ∨ b = 0x45
  · obtain ⟨mark, hb, hm⟩ := hmark
    obtain ⟨bs, rfl⟩ := List.head?_eq_some_iff.1 hb
    have hstep : step ⟨within, .fraction⟩ mark = .more ⟨within, .exponentMark⟩ := by
      rcases hm with rfl | rfl <;> rfl
    rw [resume_of_more _ hstep] at h
    obtain ⟨sign, d, more, rfl, hsign, hdigit, h⟩ := sign_of_resume h
    obtain ⟨ds, tail, rfl, hds, h⟩ := exponentDigits_of_resume h
    exact ⟨mark :: (sign ++ d :: ds), tail, by simp, .present hm hsign hdigit hds, h⟩
  · refine ⟨[], bs, rfl, .absent, ?_⟩
    rw [← h]
    refine resume_congr (by cases within <;> rfl) fun b hb => ?_
    have hb' : ¬ (b = 0x65 ∨ b = 0x45) := fun hm => hmark ⟨b, hb, hm⟩
    simp only [step, hd b hb, Bool.false_eq_true, if_false, Bool.or_eq_true, decide_eq_true_eq, hb']

/-- A fraction may come next, and then an exponent. -/
theorem fraction_of_resume (hp : place = .zero ∨ place = .whole)
    (hd : ∀ b ∈ bs.head?, isDigit b = false) (h : resume ⟨within, place⟩ bs = .ok rest) :
    ∃ fraction exponent tail, bs = fraction ++ (exponent ++ tail) ∧ Fraction fraction ∧
      Exponent exponent ∧ resume ⟨within, .settled⟩ tail = .ok rest := by
  by_cases hpoint : 0x2E ∈ bs.head?
  · obtain ⟨bs, rfl⟩ := List.head?_eq_some_iff.1 hpoint
    rw [resume_of_more ⟨within, .point⟩ (by rcases hp with rfl | rfl <;> rfl)] at h
    obtain ⟨d, more, rfl, hdigit, h⟩ := exists_digit (fun _ => rfl) rfl h
    obtain ⟨ds, tail, rfl, hds, hstop, hr⟩ := exists_digits within (.inr (.inl rfl)) more
    obtain ⟨exponent, tail, rfl, he, h⟩ := exponent_of_resume hstop (hr ▸ h)
    exact ⟨0x2E :: d :: ds, exponent, tail, by simp, .present hdigit hds, he, h⟩
  · have hsame : resume ⟨within, place⟩ bs = resume ⟨within, .fraction⟩ bs := by
      refine resume_congr (by rcases hp with rfl | rfl <;> rfl) fun b hb => ?_
      have hb' : b ≠ 0x2E := fun he => hpoint (he ▸ hb)
      rcases hp with rfl | rfl <;>
        simp only [step, afterWhole, hd b hb, hb', Bool.false_eq_true, if_false]
    obtain ⟨exponent, tail, rfl, he, h⟩ := exponent_of_resume hd (hsame ▸ h)
    exact ⟨[], exponent, tail, rfl, .absent, he, h⟩

/-- A number after its first digit. -/
theorem numeral_of_resume
    (h : b = 0x30 ∧ resume ⟨within, .zero⟩ bs = .ok rest ∨
      isDigit b = true ∧ b ≠ 0x30 ∧ resume ⟨within, .whole⟩ bs = .ok rest) :
    ∃ number tail, b :: bs = number ++ tail ∧ Grammar.Numeral number ∧
      Grammar.Numeral (0x2D :: number) ∧ resume ⟨within, .settled⟩ tail = .ok rest := by
  obtain ⟨whole, bs, hb, hw, fraction, exponent, tail, rfl, hf, he, h⟩ : ∃ whole more,
      b :: bs = whole ++ more ∧ Whole whole ∧ ∃ fraction exponent tail,
        more = fraction ++ (exponent ++ tail) ∧ Fraction fraction ∧ Exponent exponent ∧
          resume ⟨within, .settled⟩ tail = .ok rest := by
    rcases h with ⟨rfl, h⟩ | ⟨hd, hne, h⟩
    · refine ⟨[0x30], bs, rfl, .zero, fraction_of_resume (.inl rfl) (fun b hb => ?_) h⟩
      obtain ⟨bs, rfl⟩ := List.head?_eq_some_iff.1 hb
      have hfault := step_ne_fault h .badNumber
      rcases hdigit : isDigit b with _ | _
      · rfl
      · exact absurd (if_pos hdigit) hfault
    · obtain ⟨ds, tail, rfl, hds, hstop, hr⟩ := exists_digits within (.inl rfl) bs
      exact ⟨b :: ds, tail, rfl, .digits hd hne hds,
        fraction_of_resume (.inr rfl) hstop (hr ▸ h)⟩
  refine ⟨whole ++ (fraction ++ exponent), tail, by simp [hb], ?_, ?_, h⟩
  · exact .parts (.inl rfl) hw hf he
  · exact .parts (.inr rfl) hw hf he

/-- A minus sign stands before a number. -/
theorem negative_of_resume (h : resume ⟨within, .minus⟩ bs = .ok rest) :
    ∃ number tail, bs = number ++ tail ∧ Grammar.Numeral (0x2D :: number) ∧
      resume ⟨within, .settled⟩ tail = .ok rest := by
  cases bs with
  | nil => cases h
  | cons b bs =>
    have hfirst : b = 0x30 ∧ resume ⟨within, .zero⟩ bs = .ok rest ∨
        isDigit b = true ∧ b ≠ 0x30 ∧ resume ⟨within, .whole⟩ bs = .ok rest := by
      by_cases hzero : b = 0x30
      · subst hzero
        exact .inl ⟨rfl, h⟩
      · have hd : isDigit b = true := by
          have hne := step_ne_fault h .badNumber
          simpa [step, hzero, needDigit] using hne
        rw [resume_of_more ⟨within, .whole⟩
          (by simp only [step, hzero, needDigit, hd, if_true, if_false])] at h
        exact .inr ⟨hd, hzero, h⟩
    obtain ⟨number, tail, hb, -, hn, h⟩ := numeral_of_resume hfirst
    exact ⟨number, tail, hb, hn, h⟩

/-! ## Words -/

/-- What is left of a word comes next. -/
theorem word_of_resume {word : Bytes} (hw : word ≠ []) (h : resume ⟨within, .word word⟩ bs = .ok rest) :
    ∃ tail, bs = word ++ tail ∧ resume ⟨within, .settled⟩ tail = .ok rest := by
  induction word generalizing bs with
  | nil => exact absurd rfl hw
  | cons w word ih =>
    cases bs with
    | nil => cases h
    | cons b bs =>
      have hne := step_ne_fault h .badWord
      cases word with
      | nil =>
        obtain rfl : b = w := Decidable.byContradiction fun hb => hne (if_neg hb)
        rw [resume_of_complete within (by simp only [step, if_true])] at h
        exact ⟨bs, rfl, h⟩
      | cons w' word =>
        obtain rfl : b = w := Decidable.byContradiction fun hb => hne (if_neg hb)
        rw [resume_of_more ⟨within, .word (w' :: word)⟩ (by simp only [step, if_true])] at h
        obtain ⟨tail, hbs, h⟩ := ih (List.cons_ne_nil _ _) h
        exact ⟨tail, by rw [hbs]; rfl, h⟩

/-! ## Containers -/

theorem resume_blanks (hp : place = .value ∨ place = .name ∨ place = .colon) {blanks : Bytes}
    (hb : Blanks blanks) (bs : Bytes) :
    resume ⟨within, place⟩ (blanks ++ bs) = resume ⟨within, place⟩ bs := by
  rw [resume, advance_append_of_running (advance_blanks hp hb), resume]

/-- Where a value must start, blanks and a value are what is passed over. -/
def Sound (bs : Bytes) : Prop :=
  ∀ within rest, resume ⟨within, .value⟩ bs = .ok rest →
    ∃ before value tail, bs = before ++ (value ++ tail) ∧ Blanks before ∧ Derives .value value ∧
      resume ⟨within, .settled⟩ tail = .ok rest

/-- Where a scan stands after the comma inside a container. -/
def Container.next : Container → Place
  | .list => .value
  | .object => .name

/-- After a value inside a container come blanks, and then the container's end or a comma. -/
theorem closer_of_resume {container : Container}
    (h : resume ⟨container :: outer, .settled⟩ bs = .ok rest) :
    ∃ after tail, Blanks after ∧
      (bs = after ++ container.closer :: tail ∧ resume ⟨outer, .settled⟩ tail = .ok rest ∨
        bs = after ++ 0x2C :: tail ∧ resume ⟨container :: outer, container.next⟩ tail = .ok rest) := by
  obtain ⟨after, tail, rfl, ha, hstop, hr⟩ := exists_stop isSpace ⟨container :: outer, .settled⟩
    (fun b hb => by simp only [step, afterValue, hb, if_true]) bs
  rw [hr] at h
  cases tail with
  | nil => cases h
  | cons b tail =>
    have hs : isSpace b = false := hstop b rfl
    refine ⟨after, tail, ha, ?_⟩
    by_cases hcomma : b = 0x2C
    · subst hcomma
      right
      exact ⟨rfl, by cases container <;> exact h⟩
    · by_cases hclose : b = container.closer
      · subst hclose
        left
        have hc : step ⟨container :: outer, .settled⟩ container.closer = complete outer :=
          step_closer_of_isEnd container rfl
        exact ⟨rfl, (resume_of_complete outer hc tail).symm.trans h⟩
      · refine absurd ?_ (step_ne_fault h container.afterFault)
        simp only [step, afterValue, hs, hcomma, hclose, Bool.false_eq_true, if_false]

/-- A value inside a container makes an item. -/
theorem item_of_resume {container : Container} (hv : Sound bs)
    (h : resume ⟨container :: outer, .value⟩ bs = .ok rest) :
    ∃ item tail, Derives .item item ∧
      (bs = item ++ container.closer :: tail ∧ resume ⟨outer, .settled⟩ tail = .ok rest ∨
        bs = item ++ 0x2C :: tail ∧ resume ⟨container :: outer, container.next⟩ tail = .ok rest) := by
  obtain ⟨before, value, tail, rfl, hb, hd, h⟩ := hv _ _ h
  obtain ⟨after, tail, ha, ⟨rfl, hrest⟩ | ⟨rfl, hrest⟩⟩ := closer_of_resume h
  · exact ⟨_, tail, .item hb hd ha, .inl ⟨by simp, hrest⟩⟩
  · exact ⟨_, tail, .item hb hd ha, .inr ⟨by simp, hrest⟩⟩

/-- A list goes on to its closing bracket. -/
theorem items_of_resume (hv : ∀ more, more.length ≤ bs.length → Sound more)
    (h : resume ⟨.list :: outer, .value⟩ bs = .ok rest) :
    ∃ items tail, bs = items ++ 0x5D :: tail ∧ Derives .items items ∧
      resume ⟨outer, .settled⟩ tail = .ok rest := by
  induction hn : bs.length using Nat.strongRecOn generalizing bs with
  | _ n ih =>
    subst hn
    obtain ⟨item, tail, hi, ⟨rfl, hrest⟩ | ⟨rfl, hrest⟩⟩ := item_of_resume (hv bs (Nat.le_refl _)) h
    · exact ⟨item, tail, rfl, .lastItem hi, hrest⟩
    · have hlt : tail.length < (item ++ 0x2C :: tail).length := by
        simp only [List.length_append, List.length_cons]
        omega
      obtain ⟨items, tail, rfl, his, h⟩ :=
        ih _ hlt (fun more hm => hv more (Nat.le_trans hm (Nat.le_of_lt hlt))) hrest rfl
      exact ⟨_, tail, by simp, .moreItems hi his, h⟩

/-- A member: its name, a colon and an item. -/
theorem member_of_resume (hv : ∀ more, more.length ≤ bs.length → Sound more)
    (h : resume ⟨.object :: outer, .name⟩ bs = .ok rest) :
    ∃ member tail, Derives .member member ∧
      (bs = member ++ 0x7D :: tail ∧ resume ⟨outer, .settled⟩ tail = .ok rest ∨
        bs = member ++ 0x2C :: tail ∧ resume ⟨.object :: outer, .name⟩ tail = .ok rest) := by
  obtain ⟨before, bs, rfl, hb, hstop, hr⟩ := exists_stop isSpace ⟨.object :: outer, .name⟩
    (fun b hb => by simp only [step, startName, hb, if_true]) bs
  rw [hr] at h
  cases bs with
  | nil => cases h
  | cons b bs =>
    have hs : isSpace b = false := hstop b rfl
    obtain rfl : b = 0x22 := Decidable.byContradiction fun hq =>
      step_ne_fault h .badName (by simp only [step, startName, hs, hq, Bool.false_eq_true, if_false])
    rw [resume_of_more ⟨.object :: outer, .text true⟩ rfl] at h
    obtain ⟨name, bs, rfl, hn, h⟩ := body_of_resume h
    obtain ⟨after, bs, rfl, ha, hstop, hr⟩ := exists_stop isSpace ⟨.object :: outer, .colon⟩
      (fun b hb => by simp only [step, hb, if_true]) bs
    rw [afterText, if_pos rfl, hr] at h
    cases bs with
    | nil => cases h
    | cons b bs =>
      have hs : isSpace b = false := hstop b rfl
      obtain rfl : b = 0x3A := Decidable.byContradiction fun hq =>
        step_ne_fault h .missingColon (by simp only [step, hs, hq, Bool.false_eq_true, if_false])
      rw [resume_of_more ⟨.object :: outer, .value⟩ rfl] at h
      have hlen : bs.length ≤ (before ++ 0x22 :: (name ++ 0x22 :: (after ++ 0x3A :: bs))).length := by
        simp only [List.length_append, List.length_cons]
        omega
      obtain ⟨item, tail, hi, ⟨rfl, hrest⟩ | ⟨rfl, hrest⟩⟩ := item_of_resume (hv bs hlen) h
      · exact ⟨_, tail, .member hb hn ha hi, .inl ⟨by simp [Container.closer], hrest⟩⟩
      · exact ⟨_, tail, .member hb hn ha hi, .inr ⟨by simp, hrest⟩⟩

/-- An object goes on to its closing brace. -/
theorem members_of_resume (hv : ∀ more, more.length ≤ bs.length → Sound more)
    (h : resume ⟨.object :: outer, .name⟩ bs = .ok rest) :
    ∃ members tail, bs = members ++ 0x7D :: tail ∧ Derives .members members ∧
      resume ⟨outer, .settled⟩ tail = .ok rest := by
  induction hn : bs.length using Nat.strongRecOn generalizing bs with
  | _ n ih =>
    subst hn
    obtain ⟨member, tail, hm, ⟨rfl, hrest⟩ | ⟨rfl, hrest⟩⟩ := member_of_resume hv h
    · exact ⟨member, tail, rfl, .lastMember hm, hrest⟩
    · have hlt : tail.length < (member ++ 0x2C :: tail).length := by
        simp only [List.length_append, List.length_cons]
        omega
      obtain ⟨members, tail, rfl, hms, h⟩ :=
        ih _ hlt (fun more hm => hv more (Nat.le_trans hm (Nat.le_of_lt hlt))) hrest rfl
      exact ⟨_, tail, by simp, .moreMembers hm hms, h⟩

/-- A container that has just been opened is closed after blanks, or goes on to its parts. -/
theorem opened_of_resume {container : Container}
    (h : resume ⟨container :: outer, .opened⟩ bs = .ok rest) :
    (∃ blanks tail, bs = blanks ++ container.closer :: tail ∧ Blanks blanks ∧
      resume ⟨outer, .settled⟩ tail = .ok rest) ∨
    resume ⟨container :: outer, container.next⟩ bs = .ok rest := by
  obtain ⟨blanks, tail, rfl, hb, hstop, hr⟩ := exists_stop isSpace ⟨container :: outer, .opened⟩
    (fun b hb => by simp only [step, afterOpening, hb, if_true]) bs
  rw [hr] at h
  cases tail with
  | nil => cases h
  | cons b tail =>
    have hs : isSpace b = false := hstop b rfl
    by_cases hclose : b = container.closer
    · subst hclose
      left
      have hc : step ⟨container :: outer, .opened⟩ container.closer = complete outer :=
        step_closer_of_opened container
      exact ⟨blanks, tail, rfl, hb, (resume_of_complete outer hc tail).symm.trans h⟩
    · right
      rw [resume_blanks (by cases container <;> simp [Container.next]) hb, ← h]
      have hstep : step ⟨container :: outer, container.next⟩ b =
          step ⟨container :: outer, .opened⟩ b := by
        cases container <;>
          simp only [step, Container.next, afterOpening, hs, hclose, Bool.false_eq_true, if_false]
      rw [resume_cons, resume_cons, hstep]

/-! ## Values -/

/-- A value from its first byte on. -/
theorem value_of_resume (hv : ∀ more, more.length ≤ bs.length → Sound more) (hs : isSpace b = false)
    (h : resume ⟨within, .value⟩ (b :: bs) = .ok rest) :
    ∃ value tail, b :: bs = value ++ tail ∧ Derives .value value ∧
      resume ⟨within, .settled⟩ tail = .ok rest := by
  have hstep : ∀ state, step ⟨within, .value⟩ b = .more state → resume state bs = .ok rest :=
    fun state hs => (resume_of_more state hs bs).symm.trans h
  have hfault := step_ne_fault h .missingValue
  by_cases hquote : b = 0x22
  · subst hquote
    obtain ⟨body, tail, rfl, hb, h⟩ := body_of_resume (hstep ⟨within, .text false⟩ rfl)
    exact ⟨_, tail, by simp, .string hb, h⟩
  by_cases hbrace : b = 0x7B
  · subst hbrace
    rcases opened_of_resume (hstep ⟨.object :: within, .opened⟩ rfl) with
      ⟨blanks, tail, rfl, hb, h⟩ | h
    · exact ⟨_, tail, by simp [Container.closer], .emptyObject hb, h⟩
    · obtain ⟨members, tail, rfl, hm, h⟩ := members_of_resume hv h
      exact ⟨_, tail, by simp, .object hm, h⟩
  by_cases hbracket : b = 0x5B
  · subst hbracket
    rcases opened_of_resume (hstep ⟨.list :: within, .opened⟩ rfl) with
      ⟨blanks, tail, rfl, hb, h⟩ | h
    · exact ⟨_, tail, by simp [Container.closer], .emptyList hb, h⟩
    · obtain ⟨items, tail, rfl, hi, h⟩ := items_of_resume hv h
      exact ⟨_, tail, by simp, .list hi, h⟩
  by_cases hminus : b = 0x2D
  · subst hminus
    obtain ⟨number, tail, rfl, hn, h⟩ := negative_of_resume (hstep ⟨within, .minus⟩ rfl)
    exact ⟨_, tail, rfl, .number hn, h⟩
  by_cases hzero : b = 0x30
  · subst hzero
    obtain ⟨number, tail, hb, hn, -, h⟩ :=
      numeral_of_resume (.inl ⟨rfl, hstep ⟨within, .zero⟩ rfl⟩)
    exact ⟨number, tail, hb, .number hn, h⟩
  by_cases hdigit : isDigit b = true
  · have hw : step ⟨within, .value⟩ b = .more ⟨within, .whole⟩ := by
      simp only [step, startValue, hs, hquote, hbrace, hbracket, hminus, hzero, hdigit,
        Bool.false_eq_true, if_false, if_true]
    obtain ⟨number, tail, hb, hn, -, h⟩ := numeral_of_resume (.inr ⟨hdigit, hzero, hstep _ hw⟩)
    exact ⟨number, tail, hb, .number hn, h⟩
  obtain ⟨word, hmem, hw⟩ : ∃ word, b :: word ∈ words ∧
      step ⟨within, .value⟩ b = .more ⟨within, .word word⟩ ∧ word ≠ [] := by
    by_cases hn : b = 0x6E
    · subst hn
      exact ⟨_, List.mem_cons_self, rfl, List.cons_ne_nil _ _⟩
    by_cases ht : b = 0x74
    · subst ht
      exact ⟨_, List.mem_cons_of_mem _ List.mem_cons_self, rfl, List.cons_ne_nil _ _⟩
    by_cases hf : b = 0x66
    · subst hf
      exact ⟨_, List.mem_cons_of_mem _ (List.mem_cons_of_mem _ List.mem_cons_self), rfl,
        List.cons_ne_nil _ _⟩
    refine absurd ?_ hfault
    simp only [step, startValue, hs, hquote, hbrace, hbracket, hminus, hzero, hdigit, hn, ht, hf,
      Bool.false_eq_true, if_false]
  obtain ⟨tail, rfl, hrest⟩ := word_of_resume hw.2 (hstep _ hw.1)
  exact ⟨b :: word, tail, rfl, .word hmem, hrest⟩

/-- Blanks and a value are passed over where a value must start. -/
theorem sound (bs : Bytes) : Sound bs := by
  induction hn : bs.length using Nat.strongRecOn generalizing bs with
  | _ n ih =>
    subst hn
    intro within rest h
    obtain ⟨before, tail, rfl, hb, hstop, hr⟩ := exists_stop isSpace ⟨within, .value⟩
      (fun b hb => by simp only [step, startValue, hb, if_true]) bs
    rw [hr] at h
    cases tail with
    | nil => cases h
    | cons b tail =>
      have hshorter : ∀ more : Bytes, more.length ≤ tail.length → Sound more := fun more hm =>
        ih more.length (by simp only [List.length_append, List.length_cons]; omega) more rfl
      obtain ⟨value, tail, hv, hd, h⟩ := value_of_resume hshorter (hstop b rfl) h
      exact ⟨before, value, tail, by rw [hv], hb, hd, h⟩

/-- What is passed over to the rest of a text is blanks and one value. -/
theorem derives_of_skip (h : skip bs = .ok rest) :
    ∃ blanks value, bs = blanks ++ (value ++ rest) ∧ Blanks blanks ∧ Derives .value value := by
  rw [skip_eq_resume] at h
  obtain ⟨blanks, value, tail, rfl, hb, hd, h⟩ := sound bs _ _ h
  rw [resume_settled] at h
  cases h
  exact ⟨blanks, value, rfl, hb, hd⟩

end Scan

end VaultLink.Json
