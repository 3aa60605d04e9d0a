import VaultLink.Text.Decimal

/-!
# Durations

Spans of time in whole milliseconds, and how a person is told of them: seconds with as many decimals
as it takes, or milliseconds below a second.
-/

namespace VaultLink

/-- A span of time in milliseconds. -/
abbrev Duration := Nat

namespace Duration

/-- A number of seconds. -/
def ofSeconds (seconds : Nat) : Duration := 1000 * seconds

/-- The last three decimals of a number of thousandths, without zeros at the end. -/
def decimals (thousandths : Nat) : List Char :=
  let ds := [thousandths / 100, thousandths / 10 % 10, thousandths % 10]
  (ds.reverse.dropWhile (· = 0)).reverse.map Nat.digitChar

/-- The duration in words. -/
def text (d : Duration) : String :=
  if d = 0 then "0ns"
  else if d < 1000 then String.ofList (Decimal.digitsOf d ++ ['m', 's'])
  else
    let tail := match decimals (d % 1000) with
      | [] => []
      | ds => '.' :: ds
    String.ofList (Decimal.digitsOf (d / 1000) ++ tail ++ ['s'])

end Duration

end VaultLink
