import VaultLink.Json.Lexis

/-!
# Finding the end of a value

A scanner that follows JSON text byte by byte and knows where the first value ends, without keeping
the value. It looks at the form only: a number may be of any size, an escape may name half a
character, bytes above ASCII are taken as they come, and containers may stand inside one another
without limit.

* `step`: what one byte does; `advance`: what a run of bytes does;
* `advance_append`: cutting the bytes does not change where the scan gets;
* `skip`: the bytes after the value at the front of a text.
-/

namespace VaultLink.Json.Scan

/-- A container that is still open. -/
inductive Container where
  | list
  | object
  deriving DecidableEq, Repr

/-- The fault of a text that ends inside the container. -/
def Container.endFault : Container → Fault
  | .list => .endInList
  | .object => .endInObject

/-- The fault of a byte that may not follow a value inside the container. -/
def Container.afterFault : Container → Fault
  | .list => .afterItem
  | .object => .afterMember

/-- The byte that closes the container. -/
def Container.closer : Container → UInt8
  | .list => 0x5D
  | .object => 0x7D

/-- What the scanner is in the middle of. -/
inductive Place where
  /-- A value must start. -/
  | value
  /-- The innermost container has just been opened. -/
  | opened
  /-- The name of a member must start. -/
  | name
  /-- The colon after a name must come. -/
  | colon
  /-- A value inside the innermost container has just ended. -/
  | settled
  /-- Inside a word, with these bytes to come. -/
  | word (rest : Bytes)
  /-- After the minus sign of a number. -/
  | minus
  /-- After a leading zero. -/
  | zero
  /-- Inside the digits before the point. -/
  | whole
  /-- After the point. -/
  | point
  /-- Inside the digits after the point. -/
  | fraction
  /-- After the letter of the exponent. -/
  | exponentMark
  /-- After the sign of the exponent. -/
  | exponentSign
  /-- Inside the digits of the exponent. -/
  | exponent
  /-- Inside a string, which may be a name. -/
  | text (isName : Bool)
  /-- After a backslash. -/
  | escape (isName : Bool)
  /-- Inside the four digits of an escape; the ones seen so far, the last first. -/
  | digits (isName : Bool) (seen : Bytes)
  deriving DecidableEq, Repr

/-- A point of a scan: the open containers, the innermost first, and the place. -/
structure State where
  within : List Container
  place : Place
  deriving DecidableEq, Repr

/-- The start of a scan. -/
def start : State := ⟨[], .value⟩

/-- What one byte does to a scan. -/
inductive Step where
  /-- The value goes on. -/
  | more (state : State)
  /-- The byte ends the value. -/
  | done
  /-- The value has ended before the byte. -/
  | ended
  /-- The byte may not stand here. -/
  | fault (fault : Fault)
  deriving DecidableEq, Repr

/-- The step of a byte that ends a value inside the open containers. -/
def complete : List Container → Step
  | [] => .done
  | within => .more ⟨within, .settled⟩

/-- The step of a byte where a value must start. -/
def startValue (within : List Container) (b : UInt8) : Step :=
  if isSpace b then .more ⟨within, .value⟩
  else if b = 0x22 then .more ⟨within, .text false⟩
  else if b = 0x7B then .more ⟨.object :: within, .opened⟩
  else if b = 0x5B then .more ⟨.list :: within, .opened⟩
  else if b = 0x2D then .more ⟨within, .minus⟩
  else if b = 0x30 then .more ⟨within, .zero⟩
  else if isDigit b then .more ⟨within, .whole⟩
  else if b = 0x6E then .more ⟨within, .word [0x75, 0x6C, 0x6C]⟩
  else if b = 0x74 then .more ⟨within, .word [0x72, 0x75, 0x65]⟩
  else if b = 0x66 then .more ⟨within, .word [0x61, 0x6C, 0x73, 0x65]⟩
  else .fault .missingValue

/-- The step of a byte where the name of a member must start. -/
def startName (within : List Container) (b : UInt8) : Step :=
  if isSpace b then .more ⟨within, .name⟩
  else if b = 0x22 then .more ⟨within, .text true⟩
  else .fault .badName

/-- The step of a byte after the opening of the innermost container. -/
def afterOpening (within : List Container) (b : UInt8) : Step :=
  match within with
  | [] => .ended
  | container :: outer =>
    if isSpace b then .more ⟨within, .opened⟩
    else if b = container.closer then complete outer
    else match container with
      | .list => startValue within b
      | .object => startName within b

/-- The step of a byte after a value. -/
def afterValue (within : List Container) (b : UInt8) : Step :=
  match within with
  | [] => .ended
  | container :: outer =>
    if isSpace b then .more ⟨within, .settled⟩
    else if b = 0x2C then
      match container with
      | .list => .more ⟨within, .value⟩
      | .object => .more ⟨within, .name⟩
    else if b = container.closer then complete outer
    else .fault container.afterFault

/-- The step of a byte where only a digit may come. -/
def needDigit (within : List Container) (next : Place) (b : UInt8) : Step :=
  if isDigit b then .more ⟨within, next⟩ else .fault .badNumber

/-- The step of a byte after the digits before the point. -/
def afterWhole (within : List Container) (b : UInt8) : Step :=
  if b = 0x2E then .more ⟨within, .point⟩
  else if b = 0x65 || b = 0x45 then .more ⟨within, .exponentMark⟩
  else afterValue within b

/-- The step of a byte after the end of a string. -/
def closeText (within : List Container) (isName : Bool) : Step :=
  if isName then .more ⟨within, .colon⟩ else complete within

/-- What one byte does to a scan. -/
def step (state : State) (b : UInt8) : Step :=
  let within := state.within
  match state.place with
  | .value => startValue within b
  | .opened => afterOpening within b
  | .name => startName within b
  | .colon =>
    if isSpace b then .more state
    else if b = 0x3A then .more ⟨within, .value⟩
    else .fault .missingColon
  | .settled => afterValue within b
  | .word [] => afterValue within b
  | .word [w] => if b = w then complete within else .fault .badWord
  | .word (w :: rest) => if b = w then .more ⟨within, .word rest⟩ else .fault .badWord
  | .minus =>
    if b = 0x30 then .more ⟨within, .zero⟩ else needDigit within .whole b
  | .zero => if isDigit b then .fault .badNumber else afterWhole within b
  | .whole => if isDigit b then .more state else afterWhole within b
  | .point => needDigit within .fraction b
  | .fraction =>
    if isDigit b then .more state
    else if b = 0x65 || b = 0x45 then .more ⟨within, .exponentMark⟩
    else afterValue within b
  | .exponentMark =>
    if b = 0x2B || b = 0x2D then .more ⟨within, .exponentSign⟩
    else needDigit within .exponent b
  | .exponentSign => needDigit within .exponent b
  | .exponent => if isDigit b then .more state else afterValue within b
  | .text isName =>
    if b = 0x22 then closeText within isName
    else if b = 0x5C then .more ⟨within, .escape isName⟩
    else if b < 0x20 then .fault .controlCharacter
    else .more state
  | .escape isName =>
    if b = 0x75 then .more ⟨within, .digits isName []⟩
    else if (simpleEscape? b).isSome then .more ⟨within, .text isName⟩
    else .fault .badEscape
  | .digits isName [c, b', a] =>
    if (hexFour? a b' c b).isSome then .more ⟨within, .text isName⟩ else .fault .badEscape
  | .digits isName seen => .more ⟨within, .digits isName (b :: seen)⟩

/-- What the end of the text means to a scan: the value is complete, or the fault. -/
def State.finish (state : State) : Except Fault Unit :=
  let settled := match state.within with
    | [] => .ok ()
    | container :: _ => .error container.endFault
  match state.place with
  | .value | .word (_ :: _) => .error .endInValue
  | .name | .colon => .error .endInObject
  | .opened | .settled | .word [] | .zero | .whole | .fraction | .exponent => settled
  | .minus | .point | .exponentMark | .exponentSign => .error .badNumber
  | .text _ | .escape _ | .digits _ _ => .error .endInString

/-- How far a scan got. -/
inductive Progress where
  /-- The value goes on. -/
  | running (state : State)
  /-- The value has ended; the bytes after it. -/
  | complete (rest : Bytes)
  /-- The bytes are not JSON. -/
  | failed (fault : Fault)
  deriving DecidableEq, Repr

/-- What a run of bytes does to a scan. -/
def advance (state : State) : Bytes → Progress
  | [] => .running state
  | b :: bs =>
    match step state b with
    | .more state => advance state bs
    | .done => .complete bs
    | .ended => .complete (b :: bs)
    | .fault fault => .failed fault

/-- A run of bytes that is cut in two gets the scan as far as the whole run. -/
theorem advance_append (state : State) (as bs : Bytes) :
    advance state (as ++ bs) = match advance state as with
      | .running state => advance state bs
      | .complete rest => .complete (rest ++ bs)
      | .failed fault => .failed fault := by
  induction as generalizing state with
  | nil => rfl
  | cons a as ih =>
    simp only [List.cons_append, advance]
    cases step state a with
    | more state => exact ih state
    | done => rfl
    | ended => rfl
    | fault f => rfl

/-- The bytes after the value at the front of a text. -/
def skip (bs : Bytes) : Except Fault Bytes :=
  match advance start bs with
  | .running state => do
    state.finish
    return []
  | .complete rest => .ok rest
  | .failed fault => .error fault

end VaultLink.Json.Scan
