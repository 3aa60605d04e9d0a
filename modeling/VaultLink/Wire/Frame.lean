import VaultLink.Error
import VaultLink.Json.Scan

/-!
# Frames

Messages follow each other on a stream without lengths or separators: a message is one JSON value,
and its end is found by following its text. Any kind of value is a frame; only its form is checked.

* `Frame.split`: the first frame of the received bytes, or what else they are.
-/

namespace VaultLink.Frame

open Json (isSpace)

/-- What the received bytes start with. -/
inductive Split where
  /-- A message, and the bytes after it. -/
  | message (text : String) (rest : Bytes)
  /-- A complete value that is not UTF-8, and the bytes after it. -/
  | notText (fault : Utf8.Fault) (rest : Bytes)
  /-- Nothing but blanks, which count for nothing. -/
  | blank
  /-- The start of a message. -/
  | unfinished
  /-- The start of a message that is too long. -/
  | oversized
  /-- Something that is not JSON. -/
  | unparsable (fault : Json.Fault)
  deriving DecidableEq

/-- Whether a value that starts with the byte shows its own end. -/
def showsEnd (b : UInt8) : Bool := b = 0x22 || b = 0x5B || b = 0x7B

/-- Whether the byte may follow a value that does not show its own end. -/
def isDelimiter (b : UInt8) : Bool :=
  isSpace b || b = 0x22 || b = 0x5B || b = 0x5D || b = 0x7B || b = 0x7D || b = 0x2C || b = 0x3A

/-- Whether a value that starts with the byte `b` may be followed by the bytes. -/
def mayFollow (b : UInt8) : Bytes → Bool
  | [] => true
  | c :: _ => showsEnd b || isDelimiter c

/-- The message that a value makes, which stands after `blanks` bytes and before `rest`. -/
def message (blanks : Nat) (value rest : Bytes) : Split :=
  match Utf8.decode value with
  | .ok text => .message text rest
  | .error fault => .notText { fault with index := blanks + fault.index } rest

/-- The first frame of the received bytes. -/
def split (received : Bytes) : Split :=
  let lead := received.dropWhile isSpace
  match lead with
  | [] => .blank
  | b :: _ =>
    match Json.Scan.skip lead with
    | .error fault =>
      if fault.isTruncation then
        if maxMessageSize < received.length then .oversized else .unfinished
      else .unparsable fault
    | .ok rest =>
      if mayFollow b rest then
        message (received.length - lead.length) (lead.take (lead.length - rest.length)) rest
      else .unparsable .trailing

end VaultLink.Frame
