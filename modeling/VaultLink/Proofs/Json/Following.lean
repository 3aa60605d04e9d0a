import VaultLink.Json.Scan
import VaultLink.Proofs.Json.Grammar

/-!
# The scanner follows the grammar

Whatever the rules of JSON text derive, the scanner runs through: a value inside a container leaves
the scan where the value has ended (`follows_of_derives`), the last byte of an object ends it
(`advance_object`), and a value is passed over up to what follows it (`skip_of_derives`).
-/

namespace VaultLink.Json.Scan

open Grammar

variable {within outer : List Container} {place place' : Place} {bs : Bytes}

/-! ## Runs of bytes -/

theorem advance_append_of_running {state state' : State} {as : Bytes}
    (h : advance state as = .running state') (bs : Bytes) :
    advance state (as ++ bs) = advance state' bs := by
  rw [advance_append, h]

theorem advance_cons_of_more {state : State} (state' : State) {b : UInt8}
    (h : step state b = .more state') (bs : Bytes) :
    advance state (b :: bs) = advance state' bs := by
  simp only [advance, h]

/-- Bytes that leave a scan where it is. -/
theorem advance_of_forall_step {state : State} (h : ∀ b ∈ bs, step state b = .more state) :
    advance state bs = .running state := by
  induction bs with
  | nil => rfl
  | cons b bs ih =>
    rw [advance_cons_of_more _ (h b List.mem_cons_self)]
    exact ih fun b hb => h b (List.mem_cons_of_mem _ hb)

/-! ## After a value -/

/-- Whether a value inside a container has ended, or has if nothing of it follows. -/
def Place.isEnd : Place → Bool
  | .settled | .zero | .whole | .fraction | .exponent => true
  | _ => false

/-- Whether a byte can follow a value inside a container. -/
def follows (b : UInt8) : Bool := isSpace b || b = 0x2C || b = 0x5D || b = 0x7D

theorem step_of_isEnd (h : place.isEnd = true) {b : UInt8} (hb : follows b = true) :
    step ⟨within, place⟩ b = afterValue within b := by
  simp only [follows, isSpace, Bool.or_eq_true, decide_eq_true_eq] at hb
  cases place <;> simp only [Place.isEnd, Bool.false_eq_true] at h
  all_goals
    rcases hb with (((((rfl | rfl) | rfl) | rfl) | rfl) | rfl) | rfl <;> rfl

/-- Blanks after a value. -/
theorem exists_advance_blanks (hw : within ≠ []) (h : place.isEnd = true) (hb : Blanks bs) :
    ∃ place', advance ⟨within, place⟩ bs = .running ⟨within, place'⟩ ∧ place'.isEnd = true := by
  obtain ⟨container, outer, rfl⟩ := List.exists_cons_of_ne_nil hw
  have hstep : ∀ b ∈ bs, ∀ place : Place, place.isEnd = true →
      step ⟨container :: outer, place⟩ b = .more ⟨container :: outer, .settled⟩ := by
    intro b hmem place hp
    rw [step_of_isEnd hp (by simp only [follows, hb b hmem, Bool.true_or])]
    simp only [afterValue, hb b hmem, if_true]
  cases bs with
  | nil => exact ⟨place, rfl, h⟩
  | cons b bs =>
    refine ⟨.settled, ?_, rfl⟩
    rw [advance_cons_of_more _ (hstep b List.mem_cons_self place h)]
    exact advance_of_forall_step fun b hmem => hstep b (List.mem_cons_of_mem _ hmem) _ rfl

/-! ## Numbers -/

theorem advance_digits {next : Place}
    (h : ∀ b, isDigit b = true → step ⟨within, next⟩ b = .more ⟨within, next⟩) (hd : Digits bs) :
    advance ⟨within, next⟩ bs = .running ⟨within, next⟩ :=
  advance_of_forall_step fun b hb => h b (hd b hb)

theorem advance_whole (hp : place = .value ∨ place = .minus) (h : Whole bs) :
    advance ⟨within, place⟩ bs = .running ⟨within, .zero⟩ ∨
      advance ⟨within, place⟩ bs = .running ⟨within, .whole⟩ := by
  cases h with
  | zero => rcases hp with rfl | rfl <;> exact .inl rfl
  | @digits d ds hd h0 hds =>
    right
    have hstep : step ⟨within, place⟩ d = .more ⟨within, .whole⟩ := by
      rcases hp with rfl | rfl
      · have : isSpace d = false ∧ d ≠ 0x22 ∧ d ≠ 0x7B ∧ d ≠ 0x5B ∧ d ≠ 0x2D := by
          simp only [isDigit, isSpace] at hd ⊢
          grind
        simp [step, startValue, this, h0, hd]
      · simp [step, needDigit, h0, hd]
    rw [advance_cons_of_more _ hstep]
    exact advance_digits (fun b hb => by simp [step, hb]) hds

theorem advance_fraction (hp : place = .zero ∨ place = .whole) (h : Fraction bs) :
    advance ⟨within, place⟩ bs = .running ⟨within, place⟩ ∨
      advance ⟨within, place⟩ bs = .running ⟨within, .fraction⟩ := by
  cases h with
  | absent => exact .inl rfl
  | @present d ds hd hds =>
    right
    have hpoint : step ⟨within, place⟩ 0x2E = .more ⟨within, .point⟩ := by
      rcases hp with rfl | rfl <;> rfl
    have hdigit : step ⟨within, .point⟩ d = .more ⟨within, .fraction⟩ := by
      simp [step, needDigit, hd]
    rw [advance_cons_of_more _ hpoint, advance_cons_of_more _ hdigit]
    exact advance_digits (fun b hb => by simp [step, hb]) hds

theorem advance_exponent (hp : place = .zero ∨ place = .whole ∨ place = .fraction) (h : Exponent bs) :
    advance ⟨within, place⟩ bs = .running ⟨within, place⟩ ∨
      advance ⟨within, place⟩ bs = .running ⟨within, .exponent⟩ := by
  cases h with
  | absent => exact .inl rfl
  | @present mark d sign ds hm hs hd hds =>
    right
    have hmark : step ⟨within, place⟩ mark = .more ⟨within, .exponentMark⟩ := by
      rcases hm with rfl | rfl <;> rcases hp with rfl | rfl | rfl <;> rfl
    have hsigned : d ≠ 0x2B ∧ d ≠ 0x2D := by
      constructor <;> rintro rfl <;> exact absurd hd (by decide)
    have hdigit : advance ⟨within, .exponentMark⟩ (sign ++ d :: ds) =
        advance ⟨within, .exponent⟩ ds := by
      rcases hs with rfl | rfl | rfl <;> simp [advance, step, needDigit, hd, hsigned]
    rw [advance_cons_of_more _ hmark, hdigit]
    exact advance_digits (fun b hb => by simp [step, hb]) hds

theorem advance_numeral (h : Grammar.Numeral bs) :
    ∃ place, advance ⟨within, .value⟩ bs = .running ⟨within, place⟩ ∧ place.isEnd = true := by
  obtain ⟨hm, hw, hf, he⟩ := h
  rename_i minus whole fraction exponent
  obtain ⟨start, hstart, hs⟩ : ∃ start : Place, (start = .value ∨ start = .minus) ∧
      advance ⟨within, .value⟩ minus = .running ⟨within, start⟩ := by
    rcases hm with rfl | rfl
    · exact ⟨.value, .inl rfl, rfl⟩
    · exact ⟨.minus, .inr rfl, rfl⟩
  obtain ⟨first, hfirst, h₁⟩ : ∃ first : Place, (first = .zero ∨ first = .whole) ∧
      advance ⟨within, start⟩ whole = .running ⟨within, first⟩ := by
    rcases advance_whole hstart hw with h | h
    · exact ⟨_, .inl rfl, h⟩
    · exact ⟨_, .inr rfl, h⟩
  obtain ⟨second, hsecond, h₂⟩ : ∃ second : Place,
      (second = .zero ∨ second = .whole ∨ second = .fraction) ∧
      advance ⟨within, first⟩ fraction = .running ⟨within, second⟩ := by
    rcases advance_fraction hfirst hf with h | h
    · exact ⟨first, hfirst.imp_right .inl, h⟩
    · exact ⟨_, .inr (.inr rfl), h⟩
  rw [advance_append_of_running hs, advance_append_of_running h₁, advance_append_of_running h₂]
  rcases advance_exponent hsecond he with h | h
  · refine ⟨second, h, ?_⟩
    rcases hsecond with rfl | rfl | rfl <;> rfl
  · exact ⟨_, h, rfl⟩

/-! ## Strings -/

theorem mem_of_simpleEscape? {e b : UInt8} (h : simpleEscape? e = some b) :
    e ∈ ([0x22, 0x5C, 0x2F, 0x62, 0x66, 0x6E, 0x72, 0x74] : Bytes) := by
  unfold simpleEscape? at h
  simp only [Bool.or_eq_true, decide_eq_true_eq] at h
  simp only [List.mem_cons, List.not_mem_nil, or_false]
  repeat' split at h
  all_goals grind

theorem isSome_of_hexFour? {a b c d : UInt8} {n : Nat} (h : hexFour? a b c d = some n) :
    (hexValue? a).isSome ∧ (hexValue? b).isSome ∧ (hexValue? c).isSome ∧ (hexValue? d).isSome := by
  simp only [hexFour?, Option.bind_eq_bind, Option.bind_eq_some_iff] at h
  obtain ⟨_, ha, _, hb, _, hc, _, hd, -⟩ := h
  rw [ha, hb, hc, hd]
  exact ⟨rfl, rfl, rfl, rfl⟩

theorem hexFour?_isSome {a b c d : UInt8} (ha : (hexValue? a).isSome) (hb : (hexValue? b).isSome)
    (hc : (hexValue? c).isSome) (hd : (hexValue? d).isSome) : (hexFour? a b c d).isSome := by
  obtain ⟨_, ha⟩ := Option.isSome_iff_exists.1 ha
  obtain ⟨_, hb⟩ := Option.isSome_iff_exists.1 hb
  obtain ⟨_, hc⟩ := Option.isSome_iff_exists.1 hc
  obtain ⟨_, hd⟩ := Option.isSome_iff_exists.1 hd
  simp [hexFour?, ha, hb, hc, hd]

theorem advance_body (isName : Bool) (h : Body bs) :
    advance ⟨within, .text isName⟩ bs = .running ⟨within, .text isName⟩ := by
  induction h with
  | nil => rfl
  | @plain b bs h₀ h₁ h₂ _ ih =>
    have hb : ¬ b < 0x20 := UInt8.not_lt.2 h₀
    rw [advance_cons_of_more ⟨within, .text isName⟩ (by simp [step, h₁, h₂, hb]), ih]
  | @letter e bs he _ ih =>
    simp only [List.mem_cons, List.not_mem_nil, or_false] at he
    have hstep : step ⟨within, .escape isName⟩ e = .more ⟨within, .text isName⟩ := by
      rcases he with rfl | rfl | rfl | rfl | rfl | rfl | rfl | rfl <;> rfl
    rw [advance_cons_of_more ⟨within, .escape isName⟩ rfl, advance_cons_of_more _ hstep, ih]
  | @unit a b c d bs ha hb hc hd _ ih =>
    rw [← ih]
    simp [advance, step, hexFour?_isSome ha hb hc hd]

/-! ## Values -/

theorem complete_of_ne_nil (h : within ≠ []) : complete within = .more ⟨within, .settled⟩ := by
  cases within with
  | nil => exact absurd rfl h
  | cons => rfl

theorem advance_snoc {state state' : State} (h : advance state bs = .running state') (b : UInt8) :
    advance state (bs ++ [b]) = match step state' b with
      | .more next => .running next
      | .done => .complete []
      | .ended => .complete [b]
      | .fault fault => .failed fault := by
  rw [advance_append_of_running h, advance]
  rfl

/-- What the scanner makes of a part inside containers. -/
def Follows : Part → Bytes → Prop
  | .value, bs => ∀ within, within ≠ [] →
    ∃ place, advance ⟨within, .value⟩ bs = .running ⟨within, place⟩ ∧ place.isEnd = true
  | .item, bs => ∀ within place, within ≠ [] →
    (place = .value ∨ (∃ outer, within = .list :: outer) ∧ place = .opened) →
    ∃ place', advance ⟨within, place⟩ bs = .running ⟨within, place'⟩ ∧ place'.isEnd = true
  | .items, bs => ∀ outer place, (place = .value ∨ place = .opened) →
    ∃ place', advance ⟨.list :: outer, place⟩ bs = .running ⟨.list :: outer, place'⟩ ∧
      place'.isEnd = true
  | .member, bs | .members, bs => ∀ outer place, (place = .name ∨ place = .opened) →
    ∃ place', advance ⟨.object :: outer, place⟩ bs = .running ⟨.object :: outer, place'⟩ ∧
      place'.isEnd = true

/-- Blanks where something must start. -/
theorem advance_blanks (hp : place = .value ∨ place = .name ∨ place = .colon) (hb : Blanks bs) :
    advance ⟨within, place⟩ bs = .running ⟨within, place⟩ := by
  refine advance_of_forall_step fun b h => ?_
  have := hb b h
  rcases hp with rfl | rfl | rfl <;> simp [step, startValue, startName, this]

theorem advance_opened_blanks {container : Container} (hb : Blanks bs) :
    advance ⟨container :: outer, .opened⟩ bs = .running ⟨container :: outer, .opened⟩ :=
  advance_of_forall_step fun b h => by simp [step, afterOpening, hb b h]

/-- The end of a container with nothing but blanks in it. -/
theorem step_closer_of_opened (container : Container) :
    step ⟨container :: outer, .opened⟩ container.closer = complete outer := by
  cases container <;> rfl

theorem step_closer_of_isEnd (container : Container) (h : place.isEnd = true) :
    step ⟨container :: outer, place⟩ container.closer = complete outer := by
  rw [step_of_isEnd h (by cases container <;> rfl)]
  cases container <;> rfl

theorem step_comma {container : Container} (h : place.isEnd = true) :
    step ⟨container :: outer, place⟩ 0x2C =
      .more ⟨container :: outer, match container with | .list => .value | .object => .name⟩ := by
  rw [step_of_isEnd h rfl]
  cases container <;> rfl

/-- A value that starts a list is met as it would be after a comma. -/
theorem advance_opened_value (h : Derives .value bs) (more : Bytes) :
    advance ⟨.list :: outer, .opened⟩ (bs ++ more) = advance ⟨.list :: outer, .value⟩ (bs ++ more) := by
  obtain ⟨b, rest, rfl, hs, hb⟩ := h.exists_head
  have : step ⟨.list :: outer, .opened⟩ b = step ⟨.list :: outer, .value⟩ b := by
    simp [step, afterOpening, hs, Container.closer, hb]
  simp only [List.cons_append, advance, this]

/-- What stands inside a container, from its opening byte on, gets the scan to where the container can
be closed. -/
theorem exists_advance_inside {opener : UInt8} {container : Container}
    (ho : step ⟨within, .value⟩ opener = .more ⟨container :: within, .opened⟩)
    (h : Blanks bs ∨ ∃ place, advance ⟨container :: within, .opened⟩ bs =
      .running ⟨container :: within, place⟩ ∧ place.isEnd = true) :
    ∃ state, advance ⟨within, .value⟩ (opener :: bs) = .running state ∧
      step state container.closer = complete within := by
  rw [advance_cons_of_more _ ho]
  rcases h with hb | ⟨place, ha, he⟩
  · exact ⟨_, advance_opened_blanks hb, step_closer_of_opened container⟩
  · exact ⟨_, ha, step_closer_of_isEnd container he⟩

/-- A container inside another one is scanned to its end. -/
theorem follows_container {opener : UInt8} (container : Container)
    (ho : ∀ within, step ⟨within, .value⟩ opener = .more ⟨container :: within, .opened⟩)
    (h : Blanks bs ∨ ∀ outer, ∃ place, advance ⟨container :: outer, .opened⟩ bs =
      .running ⟨container :: outer, place⟩ ∧ place.isEnd = true) :
    Follows .value (opener :: (bs ++ [container.closer])) := by
  intro within hw
  obtain ⟨state, ha, hc⟩ := exists_advance_inside (ho within) (h.imp_right fun h => h within)
  refine ⟨.settled, ?_, rfl⟩
  rw [← List.cons_append, advance_snoc ha, hc, complete_of_ne_nil hw]

/-- The scanner runs through whatever the rules derive. -/
theorem follows_of_derives {part : Part} (h : Derives part bs) : Follows part bs := by
  induction h with
  | word h =>
    intro within hw
    refine ⟨.settled, ?_, rfl⟩
    simp only [words, List.mem_cons, List.not_mem_nil, or_false] at h
    rcases h with rfl | rfl | rfl <;> simp [advance, step, startValue, isSpace, isDigit,
      complete_of_ne_nil hw]
  | number h => exact fun within _ => advance_numeral h
  | @string body h =>
    intro within hw
    refine ⟨.settled, ?_, rfl⟩
    rw [advance_cons_of_more ⟨within, .text false⟩ rfl,
      advance_snoc (advance_body false h)]
    simp [step, closeText, complete_of_ne_nil hw]
  | emptyList h => exact follows_container .list (fun _ => rfl) (.inl h)
  | list _ ih =>
    exact follows_container .list (fun _ => rfl) (.inr fun _ => ih _ _ (.inr rfl))
  | emptyObject h => exact follows_container .object (fun _ => rfl) (.inl h)
  | object _ ih =>
    exact follows_container .object (fun _ => rfl) (.inr fun _ => ih _ _ (.inr rfl))
  | @item before value after hb hv ha ih =>
    intro within place hw hp
    have hstart : advance ⟨within, place⟩ (before ++ (value ++ after)) =
        advance ⟨within, .value⟩ (value ++ after) := by
      rcases hp with rfl | ⟨⟨outer, rfl⟩, rfl⟩
      · rw [advance_append_of_running (advance_blanks (.inl rfl) hb)]
      · rw [advance_append_of_running (advance_opened_blanks hb), advance_opened_value hv]
    obtain ⟨place', hrun, hend⟩ := ih within hw
    rw [hstart, advance_append_of_running hrun]
    exact exists_advance_blanks hw hend ha
  | lastItem _ ih =>
    intro outer place hp
    exact ih _ place (List.cons_ne_nil _ _) (hp.imp_right fun h => ⟨⟨outer, rfl⟩, h⟩)
  | moreItems _ _ ih ihs =>
    intro outer place hp
    obtain ⟨place', hrun, hend⟩ :=
      ih _ place (List.cons_ne_nil _ _) (hp.imp_right fun h => ⟨⟨outer, rfl⟩, h⟩)
    rw [advance_append_of_running hrun, advance_cons_of_more _ (step_comma hend)]
    exact ihs outer .value (.inl rfl)
  | @member before name after item hb hn ha _ ih =>
    intro outer place hp
    have hquote : step ⟨.object :: outer, place⟩ 0x22 = .more ⟨.object :: outer, .text true⟩ := by
      rcases hp with rfl | rfl <;> rfl
    have hblanks : advance ⟨.object :: outer, place⟩ before = .running ⟨.object :: outer, place⟩ := by
      rcases hp with rfl | rfl
      · exact advance_blanks (.inr (.inl rfl)) hb
      · exact advance_opened_blanks hb
    rw [advance_append_of_running hblanks, advance_cons_of_more _ hquote,
      advance_append_of_running (advance_body true hn),
      advance_cons_of_more ⟨.object :: outer, .colon⟩ rfl,
      advance_append_of_running (advance_blanks (.inr (.inr rfl)) ha),
      advance_cons_of_more ⟨.object :: outer, .value⟩ rfl]
    exact ih _ .value (List.cons_ne_nil _ _) (.inl rfl)
  | lastMember _ ih => exact ih
  | moreMembers _ _ ih ihs =>
    intro outer place hp
    obtain ⟨place', hrun, hend⟩ := ih outer place hp
    rw [advance_append_of_running hrun, advance_cons_of_more _ (step_comma hend)]
    exact ihs outer .name (.inl rfl)

/-! ## A value that stands alone -/

/-- A container that stands alone ends the scan with its last byte. -/
theorem advance_container (container : Container) {opener : UInt8}
    (ho : step start opener = .more ⟨[container], .opened⟩)
    (h : Blanks bs ∨ ∃ place, advance ⟨[container], .opened⟩ bs = .running ⟨[container], place⟩ ∧
      place.isEnd = true) :
    advance start (opener :: (bs ++ [container.closer])) = .complete [] := by
  obtain ⟨state, ha, hc⟩ := exists_advance_inside ho h
  rw [start, ← List.cons_append, advance_snoc ha, hc]
  rfl

/-- The last byte of an object that stands alone ends the scan, and no byte before it does. -/
theorem advance_object (h : IsObject bs) : advance start bs = .complete [] := by
  obtain ⟨inner, rfl, hi⟩ := h
  refine advance_container .object rfl (hi.imp_right fun hm => ?_)
  have hf : Follows .members inner := follows_of_derives hm
  exact hf [] .opened (.inr rfl)

/-- A value that stands alone ends the scan with its last byte, unless it is a number. -/
theorem advance_start_of_derives (h : Derives .value bs) :
    advance start bs = .complete [] ∨
      ∃ place : Place, advance start bs = .running ⟨[], place⟩ ∧ place.isEnd = true := by
  cases h with
  | word h =>
    left
    simp only [words, List.mem_cons, List.not_mem_nil, or_false] at h
    rcases h with rfl | rfl | rfl <;> rfl
  | number h => exact .inr (advance_numeral h)
  | string h =>
    left
    rw [start, advance_cons_of_more ⟨[], .text false⟩ rfl, advance_snoc (advance_body false h)]
    rfl
  | emptyList h => exact .inl (advance_container .list rfl (.inl h))
  | @list items h =>
    have hf : Follows .items items := follows_of_derives h
    exact .inl (advance_container .list rfl (.inr (hf [] _ (.inr rfl))))
  | emptyObject h => exact .inl (advance_container .object rfl (.inl h))
  | @object members h =>
    have hf : Follows .members members := follows_of_derives h
    exact .inl (advance_container .object rfl (.inr (hf [] _ (.inr rfl))))

/-- A value is passed over, and at most the blanks before what follows it are left. -/
theorem skip_of_derives {item rest : Bytes} (h : Derives .item item)
    (hr : ∀ b ∈ rest.head?, follows b = true) :
    ∃ after, Blanks after ∧ skip (item ++ rest) = .ok (after ++ rest) := by
  obtain ⟨before, value, after, rfl, hb, hv, ha⟩ := h.exists_value
  have hstart : advance start (before ++ (value ++ after) ++ rest) =
      advance start (value ++ (after ++ rest)) := by
    rw [List.append_assoc, List.append_assoc, start, advance_append_of_running (advance_blanks (.inl rfl) hb)]
  rw [skip, hstart, advance_append]
  rcases advance_start_of_derives hv with hvalue | ⟨place, hvalue, hend⟩
  · rw [hvalue]
    exact ⟨after, ha, rfl⟩
  · -- Only what follows a number tells that it has ended.
    rw [hvalue]
    have hafter : ∀ b ∈ (after ++ rest).head?, follows b = true := by
      cases after with
      | nil => exact hr
      | cons b bs =>
        intro c hc
        cases hc
        simp only [follows, ha b List.mem_cons_self, Bool.true_or]
    refine ⟨after, ha, ?_⟩
    rcases htail : after ++ rest with _ | ⟨b, bs⟩
    · cases place <;> first | rfl | cases hend
    · rw [htail] at hafter
      have hstep : step ⟨[], place⟩ b = .ended := step_of_isEnd hend (hafter b rfl)
      simp only [advance, hstep]

end VaultLink.Json.Scan
