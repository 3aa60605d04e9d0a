import VaultLink.Client.Operations

/-!
# Reports

What a command prints, one line for each thing found, either as plain text or as a JSON object, and
the complaint with which a program ends that failed: the error, and below it what caused it.

* `Report.line`: a line; `Complaint.text`: a complaint.
-/

namespace VaultLink

/-- Why a program ends with an error: what it was about, and the causes from the outside in. -/
structure Complaint where
  head : String
  causes : List String := []
  /-- Whether the program could not even end in good order. -/
  isPanic : Bool := false
  /-- How long a reply was awaited that did not come. -/
  wait : Option Duration := none

namespace Complaint

/-- A text whose lines after the first are indented. -/
def indent (spaces : String) (text : String) : String := text.replace "\n" ("\n" ++ spaces)

/-- The causes, numbered, each on lines of its own. -/
def numbered : (n : Nat) → List String → String
  | _, [] => ""
  | n, cause :: causes =>
    let number := String.ofList (Decimal.digitsOf n)
    let margin := String.ofList (List.replicate (5 - number.length) ' ')
    "\n" ++ margin ++ number ++ ": " ++ indent "       " cause ++ numbered (n + 1) causes

/-- The complaint as the user reads it. -/
def text (c : Complaint) : String :=
  "Error: " ++ c.head
    ++ (match c.causes with
      | [] => ""
      | [cause] => "\n\nCaused by:\n    " ++ indent "    " cause
      | causes => "\n\nCaused by:" ++ numbered 0 causes)
    ++ "\n"

/-- What lies behind an error that is not told in its own words. -/
def causesOf : Error → List String
  | .transport text => [text]
  | _ => []

/-- How long a reply was awaited that did not come. -/
def waitOf : Error → Option Duration
  | .timeout (.noReply _ wait) | .associationDenied (.noAnswer (.noReply _ wait)) => some wait
  | _ => none

/-- The complaint about an error. -/
def ofError (e : Error) : Complaint :=
  ⟨e.message, causesOf e, e = .deadlineOverflow, waitOf e⟩

/-- The complaint about an error that came up while something was done. -/
def within (context : String) (e : Error) : Complaint :=
  ⟨context, e.message :: causesOf e, e = .deadlineOverflow, waitOf e⟩

/-- The exit code of a program that ends with the complaint. -/
def exitCode (c : Complaint) : Nat := if c.isPanic then 101 else 1

end Complaint

/-- What a command printed, and why it failed if it did. -/
structure Report where
  lines : List String := []
  complaint : Option Complaint := none
  /-- Whether the command would go on if anything more arrived. -/
  isOpen : Bool := false

namespace Report

/-- A line about one thing: its fields as a JSON object, or a plain text. -/
def line (json : Bool) (fields : List (String × String)) (plain : String) : String :=
  if json then
    (Json.object (Json.Members.ofList (fields.map fun (name, value) => (name, .string value)))).text
  else plain

/-- The lines as the user reads them. -/
def text (report : Report) : String := String.join (report.lines.map (· ++ "\n"))

end Report

end VaultLink
